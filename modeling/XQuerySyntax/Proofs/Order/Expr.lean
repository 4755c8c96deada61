import XQuerySyntax.Grammar.Expr
import XQuerySyntax.Proofs.Order.FullText
import XQuerySyntax.Grammar.Path
import XQuerySyntax.Proofs.Order.Markup

/-! Paths, steps and primary expressions in order. What is applied to an expression stands where the
expression stands. -/

namespace XQuerySyntax.Order

open XQuerySyntax.Parser XQuerySyntax.Grammar
open List (forall_mem_nil)

variable {n b : Nat} {single : Parser Expr} {offset : Nat}

/-! ### Steps -/

theorem passes_nameTestNamespace (axis : Axis) : Passes (nameTestNamespace axis) :=
  passes_ite (passes_pure _) (passes_consult _)

theorem passes_nodeTest (axis : Axis) : Passes (nodeTest axis) := by
  refine begins_kindTest.passes.seq ?_
  rintro (_ | test)
  · refine (passes_nameTestNamespace axis).seq fun default => (begins_nameTest default).passes.seq ?_
    rintro (_ | test)
    · exact passes_unexpected _
    · exact passes_pure _
  · exact passes_pure _

/-- A step stands at its axis or at the abbreviation of it, or where its test begins. -/
theorem finds_stepTest : Leads (Matcher.Behind n b) stepTest
    (Matcher.Finds n b fun found m => b ≤ found.2.2 ∧ m.Behind n (found.2.2 + 1)) := by
  refine leads_nextOffset_bind fun begin hbegin => ?_
  have hmono {c : Nat} (hc : b ≤ c) (m : Matcher) (hm : m.Behind n c) : m.Behind n b := hm.mono hc
  refine leads_ifEat (by rfl) ?_ (leads_ifEat (by rfl) ?_
    (leads_ifEat (by rfl) ?_ ?_))
  · refine leads_start_bind fun offset ho => (passes_observe _).bind fun name => ?_
    cases Axis.ofName? name with
    | none => exact leads_fatal _ _ _
    | some axis =>
      exact (passes_nodeTest axis).bind fun test => finds_some fun _ hm => ⟨Nat.le_trans hbegin ho, hm⟩
  · refine leads_start_bind fun offset ho => ?_
    exact (passes_nodeTest _).bind fun test => finds_some fun _ hm => ⟨Nat.le_trans hbegin ho, hm⟩
  · exact leads_start_bind fun offset ho => finds_some fun _ hm => ⟨Nat.le_trans hbegin ho, hm⟩
  · refine Leads.bind (begins_kindTest n begin) ?_
    rintro (_ | test)
    · refine (passes_nameTestNamespace _).bind fun default => Leads.bind (begins_nameTest default n begin) ?_
      rintro (_ | test)
      · exact leads_pure fun _ hm => hm.mono hbegin
      · exact finds_some fun _ hm => ⟨hbegin, hm.2⟩
    · exact finds_some fun _ hm => ⟨hbegin, hm.2⟩

theorem stands_descendantStep (hb : b ≤ offset) :
    Leads (Matcher.Behind n (offset + 1)) (descendantStep offset) (Expr.Stands n b) :=
  stands_node hb ⟨List.forall_mem_nil _, forall_mem_nil _, rfl, rfl⟩

/-- Predicates leave an expression where it stands. -/
theorem stands_filtered {base : Expr} {predicates : List Expr} (hbase : base.InOrder b)
    (hps : InOrderAll (base.offset + 1) predicates) :
    Leads (Matcher.Behind n (base.offset + 1)) (filtered base predicates) (Expr.Stands n b) := by
  cases predicates with
  | nil => exact leads_pure fun _ hm => ⟨hbase, hm⟩
  | cons p ps => exact stands_leading ⟨⟨rfl, rfl⟩, rfl, rfl⟩ hbase hps

theorem builds_literal? : BuildsOptional literal? := by
  refine fun n b => leads_ifEat (by rfl) ?_ (leads_ifEat (by rfl) ?_ finds_none)
  · refine leads_start_bind fun offset ho => (passes_observe _).bind fun value => ?_
    exact Leads.some (stands_node ho ⟨List.forall_mem_nil _, forall_mem_nil _, rfl, rfl⟩)
  · refine leads_start_bind fun offset ho => (passes_observe _).bind fun value => ?_
    exact Leads.some (stands_node ho ⟨List.forall_mem_nil _, forall_mem_nil _, rfl, rfl⟩)

theorem stands_namedFunctionRef : Leads (Matcher.Took n b) namedFunctionRef (Expr.Stands n b) := by
  refine leads_start_bind fun offset ho => (passes_observe _).bind fun lexical => ?_
  refine (passes_observe _).bind fun found => ?_
  have hnode (arity : Nat) : Leads (Matcher.Behind n (offset + 1)) (do
      let name ← functionName lexical offset
      node (.namedFunctionRef name arity) offset) (Expr.Stands n b) :=
    (passes_functionName lexical offset).bind fun name => stands_node ho ⟨List.forall_mem_nil _, forall_mem_nil _, rfl, rfl⟩
  match found with
  | some (.integer arity) => exact hnode arity
  | none => exact leads_fatal _ _ _
  | some (.string _) => exact leads_fatal _ _ _
  | some (.decimal ..) => exact leads_fatal _ _ _
  | some (.double ..) => exact leads_fatal _ _ _

theorem builds_predicate (h : Builds single) : Builds (predicate single) :=
  fun _ _ => (builds_expr h).bind fun _ he => (passes_expect _).bind fun _ => leads_pure fun _ hm => ⟨he, hm⟩

theorem builds_axisStep (h : Builds single) : BuildsOptional (axisStep single) := by
  refine fun n b => Leads.bind finds_stepTest ?_
  rintro (_ | ⟨axis, test, offset⟩)
  · exact finds_none
  · refine leads_of_and fun ho => (passes_goto _).bind fun _ => ?_
    refine (keeps_many (keeps_whenEats (builds_predicate h).keeps)).bind fun ps hps => ?_
    exact Leads.some (stands_node ho ⟨hps, forall_mem_nil _, rfl, rfl⟩)

/-! ### Calls -/

theorem builds_argument (h : Builds single) : Builds (argument single) := by
  refine fun n b => leads_ifEat (by rfl) (leads_start_bind fun offset ho => ?_) (h n b)
  exact stands_node ho ⟨List.forall_mem_nil _, forall_mem_nil _, rfl, rfl⟩

theorem keeps_argumentList (h : Builds single) : Keeps n b (argumentList single) (InOrderAll b) := by
  refine leads_ifEatStay (keeps_pure (List.forall_mem_nil _)) ?_
  refine (keeps_separatedBy (builds_argument h).keeps).bind fun args hargs => ?_
  exact (passes_expect _).bind fun _ => keeps_pure hargs

/-- An expression in order with predicates behind it. -/
structure Applied (n b : Nat) (state : Expr × List Expr) (m : Matcher) : Prop where
  base : state.1.InOrder b
  predicates : InOrderAll (state.1.offset + 1) state.2
  behind : m.Behind n (state.1.offset + 1)

theorem leads_applicationStep (h : Builds single) (state : Expr × List Expr) :
    Leads (Applied n b state) (applicationStep single state) fun next m =>
      Sum.elim (Applied n b · m) (Expr.Stands n b · m) next := by
  obtain ⟨base, ps⟩ := state
  rintro s ⟨hbase, hps, hs⟩
  have hstep : Leads (Matcher.Behind n (base.offset + 1)) (applicationStep single (base, ps)) fun next m =>
      Sum.elim (Applied n b · m) (Expr.Stands n b · m) next := by
    refine leads_ifEatStay ?_ (leads_ifEatStay ?_ ?_)
    · refine (builds_predicate h).keeps.bind fun p hp => leads_pure fun _ hm => ⟨hbase, ?_, hm⟩
      exact forall_mem_concat hps hp
    · refine Leads.bind (stands_filtered hbase hps) fun function => leads_of_stands fun hfunction => ?_
      refine (keeps_argumentList h).bind fun args hargs => ?_
      refine Leads.bind (stands_leading ⟨⟨rfl, rfl⟩, rfl, rfl⟩ hfunction hargs) fun e => leads_pure fun _ hm => ?_
      exact ⟨hm.order, List.forall_mem_nil _, hm.behind⟩
    · exact Leads.bind (stands_filtered hbase hps) fun e => leads_pure fun _ hm => hm
  exact hstep s hs

theorem stands_applications (h : Builds single) {base : Expr} :
    Leads (base.Stands n b) (applications single base) (Expr.Stands n b) := by
  have hloop : Leads (Applied n b (base, [])) (applications single base) (Expr.Stands n b) :=
    leads_iterate (leads_applicationStep h) (base, [])
  exact fun s hs => hloop s ⟨hs.order, List.forall_mem_nil _, hs.behind⟩

theorem stands_parenthesized (h : Builds single) :
    Leads (Matcher.Took n b) (parenthesized single) (Expr.Stands n b) := by
  refine leads_start_bind fun offset ho => leads_ifEatStay (stands_emptySequence ho) ?_
  refine (builds_expr h).bind fun e he => (passes_expect _).bind fun _ => leads_pure fun _ hm => ⟨?_, hm⟩
  exact he.mono (Nat.le_succ_of_le ho)

theorem builds_functionCall? (h : Builds single) : BuildsOptional (functionCall? single) := by
  refine fun n b => (passes_peek _).bind fun _ => leads_ite (fun _ => finds_none) fun _ => ?_
  refine (passes_observe _).bind fun lexical => leads_ite (fun _ => finds_none) fun _ => ?_
  refine leads_expect_bind (by rfl) (leads_start_bind fun offset ho => ?_)
  refine (passes_functionName lexical offset).bind fun name => ?_
  exact (keeps_argumentList h).bind fun args hargs => Leads.some (stands_node ho ⟨hargs, forall_mem_nil _, rfl, rfl⟩)

theorem builds_primary (h : Builds single) : BuildsOptional (primary single) := by
  have hbraced (form : Expr → ExprKind Expr) (n b : Nat)
      (hform : ∀ {c e}, InOrderAll c [e] → (form e).InOrder c) : Leads (Matcher.Took n b) (do
        let offset ← start
        return some (← node (form (← bracedExpr single)) offset)) (Matcher.Finds n b (Expr.Stands n b)) := by
    refine leads_start_bind fun offset ho => (builds_bracedExpr h).keeps.bind fun e he => ?_
    exact Leads.some (stands_node ho (hform (List.forall_mem_singleton.2 he)))
  have hfunction := (builds_inlineFunction h).some
  refine fun n b => Leads.bind (builds_literal? n b) ?_
  rintro (_ | e)
  · refine leads_ifPeek ?_ (leads_ifEat (by rfl) (Leads.some (stands_parenthesized h))
      ((passes_peek _).bind ?_))
    · refine Leads.bind leads_variableName fun name => leads_start_bind fun offset ho => ?_
      exact Leads.some (stands_node ho ⟨List.forall_mem_nil _, forall_mem_nil _, rfl, rfl⟩)
    intro dots
    extract_lets rest
    have hrest : Leads (Matcher.Behind n b) (rest ()) (Matcher.Finds n b (Expr.Stands n b)) := by
      refine Leads.bind (builds_directConstructor h n b) ?_
      rintro (_ | e)
      · refine Leads.bind (builds_computedConstructor h n b) ?_
        rintro (_ | e)
        · refine leads_ifEat (by rfl) (hbraced .ordered n b fun he => ⟨he, forall_mem_nil _, rfl, rfl⟩)
            (leads_ifEat (by rfl) (hbraced .unordered n b fun he => ⟨he, forall_mem_nil _, rfl, rfl⟩)
            (leads_ifPeek (hfunction n b) (leads_ifPeek (hfunction n b) (leads_ifEat (by rfl)
            (Leads.some stands_namedFunctionRef) (builds_functionCall? h n b)))))
        · exact leads_pure fun _ hm => hm
      · exact leads_pure fun _ hm => hm
    refine leads_ite (fun _ => leads_ifEat (by rfl) ?_ hrest) fun _ => hrest
    refine leads_start_bind fun offset ho => ?_
    exact Leads.some (stands_node ho ⟨List.forall_mem_nil _, forall_mem_nil _, rfl, rfl⟩)
  · exact leads_pure fun _ hm => hm

/-! ### Paths -/

theorem builds_stepExpr (h : Builds single) : BuildsOptional (stepExpr single) := by
  refine fun n b => Leads.bind (builds_primary h n b) ?_
  rintro (_ | base)
  · exact builds_axisStep h n b
  · exact Leads.some (stands_applications h)

theorem builds_requiredStep (h : Builds single) : Builds (requiredStep single) := by
  refine fun n b => Leads.bind (builds_stepExpr h n b) ?_
  rintro (_ | step)
  · exact leads_unexpected _
  · exact leads_pure fun _ hm => hm

theorem keeps_furtherSteps (h : Builds single) :
    Keeps n b (furtherSteps single) fun found => ∀ steps ∈ found, InOrderAll b steps := by
  refine leads_ifEat (by rfl) ?_ (leads_ifEatStay ?_ keeps_none)
  · refine leads_start_bind fun offset ho => ?_
    refine Leads.bind (Leads.keeps (stands_descendantStep ho)) fun descend => leads_of_and fun hdescend => ?_
    refine (builds_requiredStep h).keeps.bind fun step hstep => keeps_someOf ?_
    exact List.forall_mem_cons.2 ⟨hdescend, List.forall_mem_singleton.2 hstep⟩
  · exact (builds_requiredStep h).keeps.bind fun step hstep => keeps_someOf (List.forall_mem_singleton.2 hstep)

theorem keeps_moreSteps (h : Builds single) :
    Keeps n b (many (furtherSteps single)) fun more => InOrderAll b more.flatten := by
  refine Leads.weaken (keeps_many (keeps_furtherSteps h)) fun more m hm => ⟨fun e he => ?_, hm.2⟩
  obtain ⟨steps, hsteps, he⟩ := List.mem_flatten.1 he
  exact hm.1 steps hsteps e he

/-- A path from the root stands at its slash. -/
theorem stands_rootedPath (h : Builds single) {origin : PathRoot} (horigin : origin ≠ .relative)
    {first : List Expr} (hb : b ≤ offset) (hfirst : InOrderAll offset first) :
    Leads (Matcher.Behind n (offset + 1)) (relativePath single origin first offset) (Expr.Stands n b) := by
  refine (keeps_moreSteps h).bind fun more hmore => ?_
  have hsteps : InOrderAll offset (first ++ more.flatten) :=
    List.forall_mem_append.2 ⟨hfirst, hmore.mono (Nat.le_succ offset)⟩
  have hfirst : (ExprKind.path origin (first ++ more.flatten)).first? = none := by
    cases origin with
    | relative => exact (horigin rfl).elim
    | _ => rfl
  have hpath : Leads (Matcher.Behind n (offset + 1)) (node (.path origin (first ++ more.flatten)) offset)
      (Expr.Stands n b) := stands_front hb ⟨hsteps, forall_mem_nil _, rfl, hfirst⟩
  dsimp only
  split
  · exact (horigin rfl).elim
  · exact hpath

/-- Any other path stands where its first step stands. -/
theorem stands_relativePath (h : Builds single) {step : Expr} :
    Leads (step.Stands n b) (relativePath single .relative [step] step.offset) (Expr.Stands n b) := by
  refine leads_of_stands fun hstep => (keeps_moreSteps h).bind fun more hmore => ?_
  have hpath : Leads (Matcher.Behind n (step.offset + 1)) (node (.path .relative ([step] ++ more.flatten)) step.offset)
      (Expr.Stands n b) := stands_leading ⟨⟨rfl, rfl⟩, rfl, rfl⟩ hstep hmore
  dsimp only
  split
  · rename_i only hone
    obtain ⟨rfl, -⟩ := List.cons.inj hone
    split
    · exact hpath
    · exact leads_pure fun _ hm => ⟨hstep, hm⟩
  · exact hpath

theorem builds_pathExpr (h : Builds single) : Builds (pathExpr single) := by
  refine fun n b => leads_ifEat (by rfl) ?_ (leads_ifEat (by rfl) ?_ ?_)
  · refine leads_start_bind fun offset ho => ?_
    refine Leads.bind (stands_descendantStep (Nat.le_refl offset)) fun descend => ?_
    refine leads_of_stands fun hdescend => Leads.of_le ?_ (Nat.succ_le_succ hdescend.offset)
    refine (builds_requiredStep h).keeps.bind fun step hstep => stands_rootedPath h (by decide) ho ?_
    exact List.forall_mem_cons.2 ⟨hdescend, List.forall_mem_singleton.2 (hstep.mono (Nat.le_succ offset))⟩
  · refine leads_start_bind fun offset ho => Leads.bind (builds_stepExpr h n (offset + 1)) ?_
    rintro (_ | step)
    · exact (passes_goto _).bind fun _ => stands_node ho ⟨List.forall_mem_nil _, forall_mem_nil _, rfl, rfl⟩
    · refine leads_of_stands fun hstep => Leads.of_le ?_ (Nat.le_succ_of_le hstep.offset)
      refine stands_rootedPath h (by decide) ho (List.forall_mem_singleton.2 (hstep.mono (Nat.le_succ offset)))
  · exact Leads.bind (builds_requiredStep h n b) fun step => stands_relativePath h

end XQuerySyntax.Order

/-! ### Expressions

Operators and single expressions in order. A node of an operator stands at the operator, behind its
first operand and in front of what else it has. -/

namespace XQuerySyntax.Order

open XQuerySyntax.Parser XQuerySyntax.Grammar
open List (forall_mem_nil)

variable {n b : Nat} {single operand : Parser Expr} {offset : Nat}

/-! ### Operators -/

/-- A binary operator stands behind its left operand and in front of its right one. -/
theorem stands_binary {op : BinaryOperator} {left right : Expr} (hleft : left.InOrder b)
    (ho : left.offset < offset) (hright : right.InOrder (offset + 1)) :
    Leads (Matcher.Behind n (offset + 1)) (node (.binary op left right) offset) (Expr.Stands n b) := by
  have hb : b ≤ offset := Nat.le_trans hleft.offset (Nat.le_of_lt ho)
  refine stands_operator ho ⟨?_, forall_mem_nil _, rfl, List.mem_cons_self⟩
  exact List.forall_mem_cons.2 ⟨hleft, List.forall_mem_singleton.2 (hright.mono (Nat.le_succ_of_le hb))⟩

theorem leads_chainStep {operators : OperatorTable} (hvisible : ∀ x ∈ operators, x.1.isVisible = true)
    (h : Builds operand) (left : Expr) :
    Leads (left.Stands n b) (chainStep operators operand left) fun next m =>
      Sum.elim (Expr.Stands n b · m) (Expr.Stands n b · m) next := by
  refine leads_of_stands fun hleft => Leads.bind (leads_eatFirst hvisible) ?_
  rintro (_ | op)
  · exact leads_pure fun _ hm => ⟨hleft, hm⟩
  · refine leads_start_bind fun offset ho => h.keeps.bind fun right hright => ?_
    exact Leads.bind (stands_binary hleft ho hright) fun e => leads_pure fun _ hm => hm

theorem builds_chain {operators : OperatorTable} (hvisible : ∀ x ∈ operators, x.1.isVisible = true)
    (h : Builds operand) : Builds (chain operators operand) :=
  fun n b => Leads.bind (h n b) fun left => leads_iterate (leads_chainStep hvisible h) left

/-- What stands behind an operator is read from there on. -/
theorem builds_suffixed {operator : Rule} (hvisible : operator.isVisible = true) (h : Builds operand)
    {form : Expr → Parser (ExprKind Expr)}
    (hform : ∀ {n b offset : Nat} {left : Expr}, left.InOrder b → b ≤ offset →
      Keeps n (offset + 1) (form left) (ExprKind.AtOperator b left)) :
    Builds (suffixed operator operand form) := by
  refine fun n b => Leads.bind (h n b) fun left => leads_of_stands fun hleft => ?_
  refine leads_ifEat hvisible (leads_start_bind fun offset ho => ?_) (leads_pure fun _ hm => ⟨hleft, hm⟩)
  have hb : b ≤ offset := Nat.le_trans hleft.offset (Nat.le_of_lt ho)
  exact (hform hleft hb).bind fun kind hkind => stands_operator ho hkind

/-- Signs in the order of their places, from one place up to another. -/
def SignsUpTo (c : Nat) : Nat → List (UnaryOperator × Nat) → Prop
  | b, [] => b ≤ c
  | b, (_, offset) :: signs => b ≤ offset ∧ SignsUpTo c (offset + 1) signs

theorem finds_sign? : Leads (Matcher.Behind n b) sign?
    (Matcher.Finds n b fun sign m => b ≤ sign.2 ∧ m.Behind n (sign.2 + 1)) := by
  refine Leads.bind (leads_eatFirst (by decide)) ?_
  rintro (_ | op)
  · exact finds_none
  · exact leads_start_bind fun offset ho => finds_some fun _ hm => ⟨ho, hm⟩

theorem leads_signs : Leads (Matcher.Behind n b) (many sign?) fun signs m =>
    ∃ c, SignsUpTo c b signs ∧ m.Behind n c := by
  refine still_get.bind fun s => ?_
  induction s.steps generalizing b with
  | zero => exact leads_exhausted
  | succ steps ih =>
    refine Leads.bind finds_sign? ?_
    rintro (_ | sign)
    · exact leads_pure fun _ hm => ⟨b, Nat.le_refl b, hm⟩
    · refine leads_of_and fun hsign => Leads.bind ih fun signs => leads_pure fun _ hm => ?_
      obtain ⟨c, hsigns, hm⟩ := hm
      exact ⟨c, ⟨hsign, hsigns⟩, hm⟩

/-- Each sign stands in front of those behind it and of the operand. -/
theorem stands_applySigns {c : Nat} {e : Expr} {signs : List (UnaryOperator × Nat)}
    (h : SignsUpTo c b signs) : Leads (e.Stands n c) (applySigns e signs) (Expr.Stands n b) := by
  induction signs generalizing b with
  | nil => exact leads_pure fun _ hm => hm.mono h
  | cons sign signs ih =>
    refine Leads.bind (ih h.2) fun inner => leads_of_stands fun hinner => ?_
    refine Leads.of_le ?_ (Nat.le_succ_of_le hinner.offset)
    exact stands_node h.1 ⟨List.forall_mem_singleton.2 hinner, forall_mem_nil _, rfl, rfl⟩

theorem passes_validationMode (name : String) (offset : Nat) : Passes (validationMode name offset) :=
  passes_ite (passes_pure _) (passes_ite (passes_pure _) fun _ _ => leads_fatal _ _ _)

theorem builds_valueExpr (h : Builds single) : Builds (valueExpr single) := by
  intro n b
  have hvalidate (mode : Option ValidationMode) (type : Option QName) {offset : Nat} (hb : b ≤ offset) :
      Leads (Matcher.Behind n (offset + 1)) (do
        return ← node (.validate mode type (← bracedExpr single)) offset) (Expr.Stands n b) :=
    (builds_bracedExpr h).keeps.bind fun e he => stands_node hb ⟨List.forall_mem_singleton.2 he, forall_mem_nil _, rfl, rfl⟩
  refine leads_ifEat (by rfl) ?_ (leads_ifEat (by rfl) ?_
    (leads_ifEat (by rfl) ?_ (leads_ifPeekFaces (builds_extensionExpr h) (builds_pathExpr h n b))))
  · refine leads_start_bind fun offset ho => (passes_observe _).bind fun name => ?_
    exact (passes_elementName name offset).bind fun name => hvalidate none (some name) ho
  · refine leads_start_bind fun offset ho => (passes_observe _).bind fun name => ?_
    exact (passes_validationMode name offset).bind fun mode => hvalidate (some mode) none ho
  · exact leads_start_bind fun offset ho => hvalidate none none ho

theorem builds_unaryExpr (h : Builds single) : Builds (unaryExpr single) := by
  refine fun n b => Leads.bind leads_signs fun signs => ?_
  rintro s ⟨c, hsigns, hs⟩
  exact Leads.bind (builds_valueExpr h n c) (fun e => stands_applySigns hsigns) s hs

theorem builds_castExpr (h : Builds single) : Builds (castExpr single) :=
  builds_suffixed (by rfl) (builds_unaryExpr h) fun hleft _ => passes_singleType.bind fun _ =>
    keeps_pure ⟨List.forall_mem_singleton.2 hleft, forall_mem_nil _, rfl, List.mem_cons_self⟩

theorem builds_castableExpr (h : Builds single) : Builds (castableExpr single) :=
  builds_suffixed (by rfl) (builds_castExpr h) fun hleft _ => passes_singleType.bind fun _ =>
    keeps_pure ⟨List.forall_mem_singleton.2 hleft, forall_mem_nil _, rfl, List.mem_cons_self⟩

theorem builds_treatExpr (h : Builds single) : Builds (treatExpr single) :=
  builds_suffixed (by rfl) (builds_castableExpr h) fun hleft _ => (passes_sequenceType _).bind
    fun _ => keeps_pure ⟨List.forall_mem_singleton.2 hleft, forall_mem_nil _, rfl, List.mem_cons_self⟩

theorem builds_instanceOfExpr (h : Builds single) : Builds (instanceOfExpr single) :=
  builds_suffixed (by rfl) (builds_treatExpr h) fun hleft _ => (passes_sequenceType _).bind
    fun _ => keeps_pure ⟨List.forall_mem_singleton.2 hleft, forall_mem_nil _, rfl, List.mem_cons_self⟩

theorem builds_unionExpr (h : Builds single) : Builds (unionExpr single) :=
  builds_chain (by decide) (builds_chain (by decide) (builds_instanceOfExpr h))

theorem builds_additiveExpr (h : Builds single) : Builds (additiveExpr single) :=
  builds_chain (by decide) (builds_chain (by decide) (builds_unionExpr h))

theorem builds_rangeExpr (h : Builds single) : Builds (rangeExpr single) := by
  refine builds_suffixed (by rfl) (builds_additiveExpr h) fun hleft hb => ?_
  refine (builds_additiveExpr h).keeps.bind fun right hright => keeps_pure ⟨?_, forall_mem_nil _, rfl, List.mem_cons_self⟩
  exact List.forall_mem_cons.2 ⟨hleft, List.forall_mem_singleton.2 (hright.mono (Nat.le_succ_of_le hb))⟩

theorem builds_ftContainsExpr (h : Builds single) : Builds (ftContainsExpr single) := by
  refine fun n b => Leads.bind (builds_rangeExpr h n b) fun left => leads_of_stands fun hleft => ?_
  refine Leads.bind (leads_eatFirst (by decide)) ?_
  rintro (_ | _)
  · exact leads_pure fun _ hm => ⟨hleft, hm⟩
  · refine leads_start_bind fun offset ho => ?_
    have hb : b ≤ offset := Nat.le_trans hleft.offset (Nat.le_of_lt ho)
    refine (keeps_ftSelection h (builds_additiveExpr h)).bind fun selection hs => ?_
    refine (keeps_whenEats (builds_unionExpr h).keeps).bind fun without hwithout => ?_
    refine stands_operator ho ⟨?_, fun options hoptions c hc => ?_, rfl, List.mem_cons_self⟩
    · refine List.forall_mem_cons.2 ⟨hleft, List.forall_mem_append.2 ⟨?_, forall_mem_toList.2 ?_⟩⟩
      · exact hs.children.mono (Nat.le_succ_of_le hb)
      · exact fun e he => (hwithout e he).mono (Nat.le_succ_of_le hb)
    · exact Nat.le_trans (Nat.le_succ_of_le hb) (hs.constants options hoptions c hc)

theorem builds_comparisonExpr (h : Builds single) : Builds (comparisonExpr single) := by
  refine fun n b => Leads.bind (builds_ftContainsExpr h n b) fun left => leads_of_stands fun hleft => ?_
  refine Leads.bind (leads_eatFirst (by decide)) ?_
  rintro (_ | op)
  · exact leads_pure fun _ hm => ⟨hleft, hm⟩
  · refine leads_start_bind fun offset ho => (builds_ftContainsExpr h).keeps.bind fun right hright => ?_
    exact stands_binary hleft ho hright

theorem builds_orExpr (h : Builds single) : Builds (orExpr single) :=
  builds_chain (by decide) (builds_chain (by decide) (builds_comparisonExpr h))

/-! ### Expressions that begin with a keyword -/

theorem passes_errorTest : Passes errorTest := by
  refine (begins_nameTest none).passes.seq ?_
  rintro (_ | test)
  · exact passes_unexpected _
  · exact passes_pure _

theorem passes_catchTests : Passes catchTests := by
  refine passes_ifEat ?_ (passes_ifEat ?_ (passes_pure _))
  · refine passes_errorTest.seq fun test => ?_
    refine (passes_many (passes_whenEats passes_variableName)).seq fun names => ?_
    exact (passes_expect _).seq fun _ => passes_pure _
  · exact (passes_separatedBy passes_errorTest).seq fun tests => passes_pure _

theorem stands_quantified (h : Builds single) (quantifier : Quantifier) (hb : b ≤ offset) :
    Leads (Matcher.Behind n (offset + 1)) (quantified single quantifier offset) (Expr.Stands n b) := by
  have hbinding : Keeps n (offset + 1) (quantifiedBinding single) fun binding =>
      InOrderAll (offset + 1) binding.children := by
    refine passes_typedVariable.bind fun ⟨name, type⟩ => (passes_expect _).bind fun _ => ?_
    exact h.keeps.bind fun value hvalue => keeps_pure (List.forall_mem_singleton.2 hvalue)
  refine (keeps_separatedBy hbinding).bind fun bindings hbindings => (passes_expect _).bind fun _ => ?_
  refine h.keeps.bind fun satisfies hsatisfies => stands_node hb ⟨?_, forall_mem_nil _, rfl, rfl⟩
  exact forall_mem_concat (List.forall_mem_flatMap.2 hbindings) hsatisfies

theorem stands_conditional (h : Builds single) (hb : b ≤ offset) :
    Leads (Matcher.Behind n (offset + 1)) (conditional single offset) (Expr.Stands n b) := by
  refine (builds_parenthesizedExpr h).keeps.bind fun condition hcondition => (passes_expect _).bind fun _ => ?_
  refine h.keeps.bind fun yes hyes => (passes_expect _).bind fun _ => h.keeps.bind fun no hno => ?_
  refine stands_node hb ⟨?_, forall_mem_nil _, rfl, rfl⟩
  exact List.forall_mem_cons.2 ⟨hcondition, List.forall_mem_cons.2 ⟨hyes, List.forall_mem_singleton.2 hno⟩⟩

theorem keeps_switchCase (h : Builds single) :
    Keeps n b (switchCase single) fun found => ∀ c ∈ found, InOrderAll b c.children := by
  refine (keeps_many (keeps_whenEats h.keeps)).bind ?_
  rintro (_ | ⟨operand, operands⟩) hoperands
  · exact keeps_none
  · refine (passes_expect _).bind fun _ => h.keeps.bind fun result hresult => keeps_someOf ?_
    exact forall_mem_concat hoperands hresult

theorem stands_switchExpr (h : Builds single) (hb : b ≤ offset) :
    Leads (Matcher.Behind n (offset + 1)) (switchExpr single offset) (Expr.Stands n b) := by
  refine (builds_parenthesizedExpr h).keeps.bind fun operand hoperand => ?_
  refine (keeps_many (keeps_switchCase h)).bind fun cases hcases => ?_
  refine leads_ite (fun _ => leads_unexpected_bind _) fun _ => (passes_expect _).bind fun _ => ?_
  refine h.keeps.bind fun default hdefault => stands_node hb ⟨?_, forall_mem_nil _, rfl, rfl⟩
  exact List.forall_mem_cons.2 ⟨hoperand, forall_mem_concat (List.forall_mem_flatMap.2 hcases) hdefault⟩

theorem passes_caseVariable : Passes caseVariable :=
  passes_ifPeek (passes_variableName.seq fun _ => (passes_expect _).seq fun _ => passes_pure _) (passes_pure _)

theorem keeps_typeswitchCase (h : Builds single) :
    Keeps n b (typeswitchCase single) fun found => ∀ c ∈ found, InOrderAll b c.children := by
  refine keeps_whenEats (passes_caseVariable.bind fun name => ?_)
  refine (passes_separatedBy (passes_sequenceType _)).bind fun types => (passes_expect _).bind fun _ => ?_
  exact h.keeps.bind fun result hresult => keeps_pure (List.forall_mem_singleton.2 hresult)

theorem passes_defaultVariable : Passes defaultVariable := by
  refine passes_ifEat (passes_variableName.seq fun _ => ?_) ?_
  · exact (passes_expect _).seq fun _ => passes_pure _
  · exact (passes_expect _).seq fun _ => passes_pure _

theorem stands_typeswitchExpr (h : Builds single) (hb : b ≤ offset) :
    Leads (Matcher.Behind n (offset + 1)) (typeswitchExpr single offset) (Expr.Stands n b) := by
  refine (builds_parenthesizedExpr h).keeps.bind fun operand hoperand => ?_
  refine (keeps_many (keeps_typeswitchCase h)).bind fun cases hcases => ?_
  refine leads_ite (fun _ => leads_unexpected_bind _) fun _ => passes_defaultVariable.bind fun name => ?_
  refine h.keeps.bind fun default hdefault => stands_node hb ⟨?_, forall_mem_nil _, rfl, rfl⟩
  exact List.forall_mem_cons.2 ⟨hoperand, forall_mem_concat (List.forall_mem_flatMap.2 hcases) hdefault⟩

theorem keeps_catchClause (h : Builds single) :
    Keeps n b (catchClause single) fun found => ∀ c ∈ found, InOrderAll b c.children := by
  refine passes_catchTests.bind ?_
  rintro (_ | ⟨tests, names⟩)
  · exact keeps_none
  · exact (builds_enclosedExpr h).keeps.bind fun body hbody => keeps_someOf (List.forall_mem_singleton.2 hbody)

theorem stands_tryCatch (h : Builds single) (hb : b ≤ offset) :
    Leads (Matcher.Behind n (offset + 1)) (tryCatch single offset) (Expr.Stands n b) := by
  refine (builds_enclosedExpr h).keeps.bind fun body hbody => ?_
  refine (keeps_many (keeps_catchClause h)).bind fun catches hcatches => ?_
  refine leads_ite (fun _ => leads_unexpected_bind _) fun _ => stands_node hb ⟨?_, forall_mem_nil _, rfl, rfl⟩
  exact List.forall_mem_cons.2 ⟨hbody, List.forall_mem_flatMap.2 hcatches⟩

/-! ### Single expressions -/

theorem builds_singleOf (h : Builds single) : Builds (singleOf single) := by
  refine fun n b => Leads.bind (builds_flwor h n b) ?_
  rintro (_ | e)
  · refine leads_ifEat (by rfl) (leads_start_bind fun _ => stands_quantified h _)
      (leads_ifEat (by rfl) (leads_start_bind fun _ => stands_quantified h _)
      (leads_ifEat (by rfl) (leads_start_bind fun _ => stands_switchExpr h)
      (leads_ifEat (by rfl) (leads_start_bind fun _ => stands_typeswitchExpr h)
      (leads_ifEat (by rfl) (leads_start_bind fun _ => stands_conditional h)
      (leads_ifEat (by rfl) (leads_start_bind fun _ => stands_tryCatch h)
      (Leads.bind (builds_updateExpr h n b) ?_))))))
    rintro (_ | e)
    · refine Leads.bind (builds_scriptingExpr h n b) ?_
      rintro (_ | e)
      · exact builds_orExpr h n b
      · exact leads_pure fun _ hm => hm
    · exact leads_pure fun _ hm => hm
  · exact leads_pure fun _ hm => hm

theorem builds_exprSingle : Builds exprSingle := by
  have hwithin (steps : Nat) : Builds (singleWithin steps) := by
    induction steps with
    | zero => exact fun _ _ => leads_exhausted
    | succ steps ih => exact fun n b => leads_nested (builds_singleOf ih n b)
  exact fun n b => still_get.bind fun _ => hwithin _ n b

end XQuerySyntax.Order
