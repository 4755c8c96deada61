import XQuerySyntax.Grammar.Flwor
import XQuerySyntax.Grammar.Function
import XQuerySyntax.Grammar.Update
import XQuerySyntax.Proofs.Tree.Type

/-! The trees of sequences, clauses, updates, statements and functions. -/

namespace XQuerySyntax

variable {o : Origin}

theorem forall_mem_toList {α : Type} {p : α → Prop} {x : Option α} :
    (∀ a ∈ x.toList, p a) ↔ ∀ a ∈ x, p a := by
  simp only [Option.mem_toList, Option.mem_def]

theorem forall_mem_concat {α : Type} {p : α → Prop} {xs : List α} {x : α} (h : ∀ a ∈ xs, p a)
    (hx : p x) : ∀ a ∈ xs ++ [x], p a :=
  List.forall_mem_append.2 ⟨h, List.forall_mem_singleton.2 hx⟩

/-- A binding of sound parts in a place of the text. -/
structure ForBinding.Sound (o : Origin) (b : ForBinding Expr) : Prop where
  source : b.source.IsOperand o
  type : ∀ t ∈ b.typeDecl, t.Sound o
  offset : o.HasPlace b.offset

/-- A binding of sound parts in a place of the text. -/
structure LetBinding.Sound (o : Origin) (b : LetBinding Expr) : Prop where
  value : b.value.IsOperand o
  type : ∀ t ∈ b.typeDecl, t.Sound o
  offset : o.HasPlace b.offset

/-- A well-formed clause with sound parts. -/
structure Clause.Sound (o : Origin) (c : Clause Expr) : Prop where
  operands : ∀ e ∈ c.children, e.IsOperand o
  wellFormed : c.WellFormed
  types : ∀ t ∈ c.types, t.Sound o
  places : ∀ place ∈ c.places, o.HasPlace place

theorem Clause.Sound.forEach {bindings : List (ForBinding Expr)} (hne : bindings ≠ [])
    (h : ∀ b ∈ bindings, b.Sound o) : (Clause.forEach bindings).Sound o where
  operands := List.forall_mem_flatMap.2 fun b hb => List.forall_mem_singleton.2 (h b hb).source
  wellFormed := hne
  types := List.forall_mem_flatMap.2 fun b hb => forall_mem_toList.2 (h b hb).type
  places := List.forall_mem_map.2 fun b hb => (h b hb).offset

theorem Clause.Sound.letBe {bindings : List (LetBinding Expr)} (hne : bindings ≠ [])
    (h : ∀ b ∈ bindings, b.Sound o) : (Clause.letBe bindings).Sound o where
  operands := List.forall_mem_flatMap.2 fun b hb => List.forall_mem_singleton.2 (h b hb).value
  wellFormed := hne
  types := List.forall_mem_flatMap.2 fun b hb => forall_mem_toList.2 (h b hb).type
  places := List.forall_mem_map.2 fun b hb => (h b hb).offset

/-- A condition without anything else but an operand. -/
theorem Clause.Sound.filter {condition : Expr} (h : condition.IsOperand o) :
    (Clause.filter condition).Sound o where
  operands := List.forall_mem_singleton.2 h
  wellFormed := trivial
  types := List.forall_mem_nil _
  places := List.forall_mem_nil _

theorem Clause.Sound.count (name : QName) : (Clause.count name : Clause Expr).Sound o where
  operands := List.forall_mem_nil _
  wellFormed := trivial
  types := List.forall_mem_nil _
  places := List.forall_mem_nil _

/-- A condition at the end of clauses is taken off; what is left still begins with the first clause. -/
theorem Clause.splitCondition_spec {ε : Type} {first : Clause ε} (more : List (Clause ε))
    (h : first.isInitial) {clauses : List (Clause ε)} {condition : Option ε}
    (hs : Clause.splitCondition (first :: more) = (clauses, condition)) :
    clauses.head? = some first ∧ (∀ c ∈ clauses, c ∈ first :: more) ∧
      (∀ e ∈ condition, .filter e ∈ first :: more) ∧
      (condition.isNone → ∀ c ∈ clauses.getLast?, ¬c.isCondition) := by
  obtain hnil | ⟨before, last, hlast⟩ := List.eq_nil_or_concat' (first :: more)
  · cases hnil
  have hmem : last ∈ first :: more := by
    rw [hlast]
    exact List.mem_concat_self
  unfold Clause.splitCondition at hs
  rw [hlast, List.getLast?_concat, List.dropLast_concat] at hs
  cases last with
  | filter e =>
    cases hs
    refine ⟨?_, fun c hc => ?_, ?_, nofun⟩
    · cases clauses with
      | nil =>
        cases hlast
        cases h
      | cons c clauses =>
        cases hlast
        rfl
    · rw [hlast]
      exact List.mem_append_left _ hc
    · rintro _ ⟨⟩
      exact hmem
  | _ =>
    cases hs
    rw [← hlast]
    refine ⟨rfl, fun _ hc => hc, fun _ h => (nomatch h), fun _ c hc => ?_⟩
    rw [hlast, List.getLast?_concat] at hc
    cases hc
    exact Bool.false_ne_true

/-- What is collected from clauses is collected from what is left of them and from the condition. -/
theorem Clause.flatMap_splitCondition {ε α : Type} (f : Clause ε → List α) {clauses before : List (Clause ε)}
    {condition : Option ε} (h : Clause.splitCondition clauses = (before, condition)) :
    clauses.flatMap f = before.flatMap f ++ condition.toList.flatMap fun e => f (.filter e) := by
  obtain rfl | ⟨front, last, rfl⟩ := List.eq_nil_or_concat' clauses
  · cases h
    rfl
  · unfold Clause.splitCondition at h
    rw [List.getLast?_concat, List.dropLast_concat] at h
    cases last <;> cases h <;> simp

namespace Grammar

open XQuerySyntax.Parser
open List (forall_mem_nil)

variable {d : Nat} {single : Parser Expr} {offset : Nat}

/-! ### Expressions with commas and in braces -/

/-- A comma is only tested for, so behind one there is always another expression. -/
theorem yields_expr (h : YieldsOperand o single) : Yields o d (expr single) (Expr.IsOperand o) := by
  refine (h d).bind fun first hfirst => yields_peek_bind ?_ (yields_pure hfirst)
  refine (yieldsAt_many (h d)).bind fun rest hrest => ?_
  refine yields_operand hfirst.sound.offset (.bare rfl rfl rfl ?_ ?_)
  · exact List.forall_mem_cons.2 ⟨hfirst, hrest.2⟩
  · intro hone
    exact hrest.1 (List.length_eq_zero_iff.1 (Nat.succ.inj hone))

theorem yields_exprUpToBrace? (h : YieldsOperand o single) :
    Yields o d (exprUpToBrace? single) fun found => ∀ e ∈ found, e.IsOperand o := by
  refine yields_ifEat yields_none ((yields_expr h).bind fun e he => ?_)
  exact (yields_expect _).bind fun _ _ => yields_some he

theorem yields_emptySequence (ho : o.HasPlace offset) :
    Yields o d (node (.sequence []) offset) (Expr.IsOperand o) :=
  yields_operand ho (.bare rfl rfl rfl (List.forall_mem_nil _) nofun)

theorem yields_exprUpToBrace (h : YieldsOperand o single) (ho : o.HasPlace offset) :
    Yields o d (exprUpToBrace single offset) (Expr.IsOperand o) := by
  refine (yields_exprUpToBrace? h).bind ?_
  rintro (_ | e) he
  · exact yields_emptySequence ho
  · exact yields_pure (he e rfl)

theorem yields_enclosedExpr (h : YieldsOperand o single) :
    Yields o d (enclosedExpr single) (Expr.IsOperand o) :=
  (yields_expect _).bind fun _ _ => yields_start.bind fun _ ho => yields_exprUpToBrace h ho

theorem yields_bracedExpr (h : YieldsOperand o single) :
    Yields o d (bracedExpr single) (Expr.IsOperand o) := by
  refine (yields_expect _).bind fun _ _ => (yields_expr h).bind fun e he => ?_
  exact (yields_expect _).bind fun _ _ => yields_pure he

theorem yields_optionalExpr (h : YieldsOperand o single) :
    Yields o d (optionalExpr single) fun found => ∀ e ∈ found, e.IsOperand o :=
  (yields_expect _).bind fun _ _ => yields_exprUpToBrace? h

theorem yields_parenthesizedExpr (h : YieldsOperand o single) :
    Yields o d (parenthesizedExpr single) (Expr.IsOperand o) := by
  refine (yields_expect _).bind fun _ _ => (yields_expr h).bind fun e he => ?_
  exact (yields_expect _).bind fun _ _ => yields_pure he

/-- Behind the opener of a pragma there is at least one. -/
theorem yieldsAt_pragmas :
    YieldsAt o d Terminal.pragmaOpen pragmas fun found => found.1 ≠ [] ∧ o.HasPlace found.2 := by
  have hmany : YieldsAt o d Terminal.pragmaOpen (many pragma?) fun found =>
      found ≠ [] ∧ ∀ a ∈ found, o.HasPlace a.2 := by
    refine yieldsAt_many (yields_start.bind fun offset ho => ?_)
    refine (yields_capturedQualifiedName 0).bind fun name _ => (yields_plainName name ho).bind ?_
    exact fun _ _ => (yields_lexeme (scanDelimited_within _ _)).bind fun _ _ => yields_pure ho
  refine hmany.bind ?_
  rintro (_ | ⟨⟨first, offset⟩, rest⟩) ⟨hne, hplaces⟩
  · exact absurd rfl hne
  · exact yields_pure ⟨List.cons_ne_nil _ _, hplaces _ List.mem_cons_self⟩

theorem yieldsAt_extensionExpr (h : YieldsOperand o single) :
    YieldsAt o d Terminal.pragmaOpen (extensionExpr single) (Expr.IsOperand o) := by
  refine yieldsAt_pragmas.bind fun ⟨ps, offset⟩ ⟨hne, ho⟩ => ?_
  refine (yields_optionalExpr h).bind fun e he => yields_operand ho (.bare rfl rfl rfl ?_ hne)
  exact fun e' he' => he e' (Option.mem_toList.1 he')

/-! ### Clauses -/

theorem yields_positionalVariable (name : QName) :
    Yields o d (positionalVariable name) fun _ => True := by
  refine yields_nextOffset.bind fun offset ho => yields_variableName.bind fun positional _ => ?_
  refine yields_ite (fun _ => ?_) fun _ => yields_any
  exact (yields_record ho _ _).bind fun _ _ => yields_any

theorem yields_forBinding (h : YieldsOperand o single) :
    Yields o d (forBinding single) (ForBinding.Sound o) := by
  refine yields_nextOffset.bind fun offset ho => yields_typedVariable.bind fun ⟨name, type⟩ ht => ?_
  refine (yields_eat _).bind fun allowingEmpty _ => ?_
  refine (yields_whenEats (yields_positionalVariable name)).bind fun positional _ => ?_
  refine (yields_whenEats yields_variableName).bind fun score _ => ?_
  exact (yields_expect _).bind fun _ _ => (h d).bind fun _ he => yields_pure ⟨he, ht, ho⟩

theorem yields_letBinding (h : YieldsOperand o single) (score : Bool) :
    Yields o d (letBinding single score) (LetBinding.Sound o) := by
  refine yields_nextOffset.bind fun offset ho => ?_
  have hend (binding : QName × Option SequenceType) (ht : ∀ t ∈ binding.2, t.Sound o) :
      Yields o d (do
        expect Terminal.assign
        let value ← single
        return LetBinding.mk binding.1 binding.2 score value offset) (LetBinding.Sound o) :=
    (yields_expect _).bind fun _ _ => (h d).bind fun _ he => yields_pure ⟨he, ht, ho⟩
  refine yields_ite (fun _ => ?_) fun _ => yields_typedVariable.bind hend
  refine (yields_variableName.map (·, none) fun _ _ => ?_).bind hend
  exact nofun

theorem yields_letBindings (h : YieldsOperand o single) (score : Bool) :
    Yields o d (letBindings single score) fun c => c.isInitial ∧ c.Sound o := by
  refine (yields_letBinding h score).bind fun first hfirst => ?_
  refine (yields_many (yields_whenEats (yields_letBinding h false))).bind fun rest hrest => ?_
  refine yields_pure ⟨rfl, .letBe (List.cons_ne_nil _ _) ?_⟩
  exact List.forall_mem_cons.2 ⟨hfirst, hrest⟩

theorem yields_windowCondition (h : YieldsOperand o single) (only : Bool) :
    Yields o d (windowCondition single only) fun w => w.condition.IsOperand o := by
  have hvariable (r : Rule) : Yields o d (whenEats r variableName) fun _ => True :=
    (yields_whenEats yields_variableName).weaken fun _ _ => trivial
  have hend (current : Option QName) : Yields o d (do
      let positional ← whenEats Terminal.windowAt variableName
      let previous ← whenEats Terminal.windowPrevious variableName
      let next ← whenEats Terminal.windowNext variableName
      expect Terminal.whenCondition
      let condition ← single
      return WindowCondition.mk only ⟨current, positional, previous, next⟩ condition) fun w =>
        w.condition.IsOperand o := by
    refine (hvariable _).bind fun _ _ => (hvariable _).bind fun _ _ => (hvariable _).bind fun _ _ => ?_
    exact (yields_expect _).bind fun _ _ => (h d).bind fun _ he => yields_pure he
  refine yields_ifPeek ?_ ?_
  · have hcurrent : Yields o d (some <$> variableName) fun _ => True :=
      yields_variableName.map some fun _ _ => trivial
    exact hcurrent.bind fun current _ => hend current
  · exact yields_any.bind fun current _ => hend current

/-- A sliding window has an end. -/
theorem yields_windowEnd (h : YieldsOperand o single) (kind : WindowKind) :
    Yields o d (windowEnd single kind) fun last =>
      (∀ w ∈ last, w.condition.IsOperand o) ∧ (kind = .sliding → last.isSome) := by
  have hsome (only : Bool) : Yields o d (do return some (← windowCondition single only)) fun last =>
      (∀ w ∈ last, w.condition.IsOperand o) ∧ (kind = .sliding → last.isSome) := by
    refine (yields_windowCondition h only).bind fun w hw => yields_pure ⟨?_, fun _ => rfl⟩
    rintro _ ⟨⟩
    exact hw
  refine yields_ifEat (hsome true) (yields_ifEat (hsome false) ?_)
  refine yields_ite (fun _ => yields_unexpected_bind _) fun hk => yields_pure ⟨?_, fun h => absurd h hk⟩
  exact fun _ h => nomatch h

theorem yields_windowClause (h : YieldsOperand o single) (kind : WindowKind) :
    Yields o d (windowClause single kind) fun c => c.isInitial ∧ c.Sound o := by
  refine yields_nextOffset.bind fun offset ho => yields_typedVariable.bind fun ⟨name, type⟩ ht => ?_
  refine (yields_expect _).bind fun _ _ => (h d).bind fun source hsource => ?_
  refine (yields_expect _).bind fun _ _ => (yields_windowCondition h false).bind fun first hfirst => ?_
  refine (yields_windowEnd h kind).bind fun last hlast => ?_
  refine (yields_forIn (fun n => yields_record ho _ _) _).bind fun _ _ => ?_
  refine yields_pure ⟨rfl, ?_, hlast.2, forall_mem_toList.2 ht, List.forall_mem_nil _⟩
  refine List.forall_mem_cons.2 ⟨hsource, List.forall_mem_cons.2 ⟨hfirst, ?_⟩⟩
  exact List.forall_mem_flatMap.2 fun w hw =>
    List.forall_mem_singleton.2 (hlast.1 w (Option.mem_toList.1 hw))

theorem yields_initialClause (h : YieldsOperand o single) :
    Yields o d (initialClause single) fun found => ∀ c ∈ found, c.isInitial ∧ c.Sound o := by
  refine yields_ifEat (yields_windowClause h _).some (yields_ifEat (yields_windowClause h _).some
    (yields_ifEat ?_ (yields_ifEat (yields_letBindings h _).some
      (yields_ifEat (yields_letBindings h _).some yields_none))))
  refine (yields_separatedBy (yields_forBinding h)).bind fun bindings hb => ?_
  exact yields_some ⟨rfl, .forEach hb.1 hb.2⟩

theorem yields_clause (h : YieldsOperand o single) :
    Yields o d (clause single) fun found => ∀ c ∈ found, c.Sound o := by
  refine (yields_initialClause h).bind ?_
  rintro (_ | c) hc
  · refine yields_ifEat ?_ (yields_ifEat ?_ yields_none)
    · exact (h d).bind fun condition he => yields_some (.filter he)
    · exact yields_variableName.bind fun name _ => yields_some (.count name)
  · exact yields_some (hc c rfl).2

theorem yields_collation : Yields o d collation fun _ => True :=
  (yields_whenEats (yields_capturedString 0)).weaken fun _ _ => trivial

theorem yields_groupingSpec (h : YieldsOperand o single) (bound : List ExpandedName) :
    Yields o d (groupingSpec single bound) fun g => ∀ e ∈ g.value, e.IsOperand o := by
  refine yields_nextOffset.bind fun offset ho => yields_variableName.bind fun name _ => ?_
  refine (yields_whenEats (h d)).bind fun value hvalue => ?_
  have hend : Yields o d (do
      return GroupingSpec.mk name value (← collation)) fun g => ∀ e ∈ g.value, e.IsOperand o :=
    yields_collation.bind fun _ _ => yields_pure hvalue
  exact yields_ite (fun _ => (yields_record ho _ _).bind fun _ _ => hend) fun _ => hend

theorem yields_orderSpec (h : YieldsOperand o single) :
    Yields o d (orderSpec single) fun s => s.key.IsOperand o := by
  refine (h d).bind fun key hkey => (yields_eatFirst _).bind fun direction _ => ?_
  refine (yields_eatFirst _).bind fun empty _ => ?_
  exact yields_collation.bind fun _ _ => yields_pure hkey

/-- An ordering that is stable is there. -/
theorem yields_ordering (h : YieldsOperand o single) :
    Yields o d (ordering single) fun found =>
      (found.1 → found.2 ≠ []) ∧ ∀ s ∈ found.2, s.key.IsOperand o := by
  refine (yields_eatFirst _).bind ?_
  rintro (_ | stable) -
  · exact yields_pure ⟨nofun, List.forall_mem_nil _⟩
  · refine (yields_separatedBy (yields_orderSpec h)).bind fun keys hkeys => yields_pure ?_
    exact ⟨fun _ => hkeys.1, hkeys.2⟩

theorem yields_postGroupClause (h : YieldsOperand o single) :
    Yields o d (postGroupClause single) fun found => ∀ c ∈ found, c.Sound o := by
  refine (yields_clause h).bind ?_
  rintro (_ | c) hc
  · refine yields_ifEat ?_ yields_none
    refine yields_start.bind fun offset ho => ?_
    exact yields_fatal_bind ho _ _
  · exact yields_pure hc

theorem yields_flwor (h : YieldsOperand o single) :
    Yields o d (flwor single) fun found => ∀ e ∈ found, e.IsOperand o := by
  refine yields_nextOffset.bind fun offset ho => (yields_initialClause h).bind ?_
  rintro (_ | first) hfirst
  · exact yields_none
  obtain ⟨hinitial, hsound⟩ := hfirst first rfl
  refine (yields_many (yields_clause h)).bind fun more hmore => ?_
  have hall := List.forall_mem_cons.2 ⟨hsound, hmore⟩
  cases hs : Clause.splitCondition (first :: more) with | mk clauses condition
  obtain ⟨hhead, hclauses, hcondition, hlast⟩ := Clause.splitCondition_spec more hinitial hs
  have hend (groupBy : List (GroupingSpec Expr)) (postGroup : List (Clause Expr))
      (hg : ∀ g ∈ groupBy, ∀ e ∈ g.value, e.IsOperand o) (hp : ∀ c ∈ postGroup, c.Sound o)
      (hgrouped : postGroup ≠ [] → groupBy ≠ []) : Yields o d (do
        let order ← ordering single
        expect Terminal.returnClause
        let result ← single
        return some (← node (.flwor
          ⟨clauses, condition, groupBy, postGroup, order.1, order.2, result⟩) offset))
        fun found => ∀ e ∈ found, e.IsOperand o := by
    refine (yields_ordering h).bind fun order horder => ?_
    obtain ⟨hstable, hkeys⟩ := horder
    refine (yields_expect _).bind fun _ _ => (h d).bind fun result hresult => ?_
    have heach : ∀ c ∈ clauses ++ postGroup, c.Sound o :=
      List.forall_mem_append.2 ⟨fun c hc => hall c (hclauses c hc), hp⟩
    refine yields_someOperand ho ⟨⟨?_, ?_, ?_, ?_, forall_mem_nil _, forall_mem_nil _, forall_mem_nil _⟩, rfl, rfl⟩
    · simp only [ExprKind.operands, ExprKind.children, Flwor.children, List.forall_mem_append,
        List.forall_mem_flatMap, List.forall_mem_singleton, forall_mem_toList]
      have hcond : ∀ e ∈ condition, e.IsOperand o := fun e he =>
        List.forall_mem_singleton.1 (hall _ (hcondition e he)).operands
      exact ⟨⟨⟨⟨⟨fun c hc => (hall c (hclauses c hc)).operands, hcond⟩,
        fun g hg' => forall_mem_toList.2 (hg g hg')⟩, fun c hc => (hp c hc).operands⟩, hkeys⟩, hresult⟩
    · have hne : clauses ≠ [] := by
        rintro rfl
        cases hhead
      refine ⟨hne, ?_, hlast, fun c hc => (heach c hc).wellFormed, hgrouped, hstable⟩
      rw [hhead]
      rintro _ ⟨⟩
      exact hinitial
    · exact List.forall_mem_flatMap.2 fun c hc => (heach c hc).types
    · exact List.forall_mem_flatMap.2 fun c hc => (heach c hc).places
  refine (yields_eat _).bind ?_
  rintro (_ | _) -
  · exact hend [] [] (List.forall_mem_nil _) (List.forall_mem_nil _) fun h => absurd rfl h
  · refine (yields_separatedBy (yields_groupingSpec h _)).bind fun groupBy hg => ?_
    refine (yields_many (yields_postGroupClause h)).bind fun postGroup hp => ?_
    exact hend groupBy postGroup hg.2 hp fun _ => hg.1

/-! ### Updates -/

theorem yields_insertPosition : Yields o d insertPosition fun _ => True := by
  refine (yields_eatFirst _).bind ?_
  rintro (_ | position) -
  · exact yields_unexpected _
  · exact yields_any

/-- A form without anything but two operands. -/
theorem isOperand_pair {kind : ExprKind Expr} {left right : Expr} (hl : left.IsOperand o)
    (hr : right.IsOperand o) (h : kind.operands = [left, right]) : ∀ e ∈ kind.operands, e.IsOperand o := by
  rw [h]
  exact List.forall_mem_cons.2 ⟨hl, List.forall_mem_singleton.2 hr⟩

theorem yields_replace (h : YieldsOperand o single) (valueOf : Bool) :
    Yields o d (replace single valueOf) (ExprKind.IsOperand o) := by
  refine (h d).bind fun target ht => (yields_expect _).bind fun _ _ => (h d).bind fun new hn => ?_
  exact yields_pure (.bare rfl rfl rfl (isOperand_pair ht hn rfl) trivial)

theorem yields_copyBinding (h : YieldsOperand o single) :
    Yields o d (copyBinding single) fun b => b.value.IsOperand o ∧ b.typeDecl = none := by
  refine yields_variableName.bind fun name _ => (yields_expect _).bind fun _ _ => ?_
  exact (h d).bind fun value hv => yields_pure ⟨hv, rfl⟩

theorem yields_transform (h : YieldsOperand o single) :
    Yields o d (transform single) (ExprKind.IsOperand o) := by
  refine (yields_separatedBy (yields_copyBinding h)).bind fun bindings hb => ?_
  refine (yields_expect _).bind fun _ _ => (h d).bind fun modify hm => ?_
  refine (yields_expect _).bind fun _ _ => (h d).bind fun result hr => ?_
  refine yields_pure ⟨⟨?_, hb.1, ?_, forall_mem_nil _, forall_mem_nil _, forall_mem_nil _, forall_mem_nil _⟩, rfl, rfl⟩
  · refine List.forall_mem_append.2 ⟨?_, List.forall_mem_cons.2 ⟨hm, List.forall_mem_singleton.2 hr⟩⟩
    exact List.forall_mem_flatMap.2 fun b hb' => List.forall_mem_singleton.2 (hb.2 b hb').1
  · refine List.forall_mem_flatMap.2 fun b hb' => ?_
    rw [(hb.2 b hb').2]
    exact List.forall_mem_nil _

theorem yields_updateKind (h : YieldsOperand o single) :
    Yields o d (updateKind single) fun found => ∀ kind ∈ found, kind.IsOperand o := by
  refine (yields_eatFirst _).bind fun _ _ => yields_ite (fun _ => ?_) fun _ => ?_
  · refine (h d).bind fun source hs => yields_insertPosition.bind fun position _ => ?_
    refine (h d).bind fun target ht => ?_
    exact yields_some (.bare rfl rfl rfl (isOperand_pair hs ht rfl) trivial)
  refine (yields_eatFirst _).bind fun _ _ => yields_ite (fun _ => ?_) fun _ => ?_
  · exact (h d).bind fun target ht =>
      yields_some (.bare rfl rfl rfl (List.forall_mem_singleton.2 ht) trivial)
  refine yields_ifEat (yields_replace h true).some (yields_ifEat (yields_replace h false).some
    (yields_ifEat ?_ (yields_whenEats (yields_transform h))))
  refine (h d).bind fun target ht => (yields_expect _).bind fun _ _ => (h d).bind fun name hn => ?_
  exact yields_some (.bare rfl rfl rfl (isOperand_pair ht hn rfl) trivial)

theorem yields_updateExpr (h : YieldsOperand o single) :
    Yields o d (updateExpr single) fun found => ∀ e ∈ found, e.IsOperand o := by
  refine yields_nextOffset.bind fun offset ho => (yields_updateKind h).bind ?_
  rintro (_ | kind) hk
  · exact yields_none
  · exact yields_someOperand ho (hk kind rfl)

/-! ### Statements -/

theorem yields_blockVariable (h : YieldsOperand o single) :
    Yields o d (blockVariable single) fun b =>
      (∀ e ∈ b.value, e.IsOperand o) ∧ ∀ t ∈ b.typeDecl, t.Sound o := by
  refine yields_typedVariable.bind fun ⟨name, type⟩ ht => ?_
  exact (yields_whenEats (h d)).bind fun value hv => yields_pure ⟨hv, ht⟩

theorem yields_blockDeclaration (h : YieldsOperand o single) :
    Yields o d (blockDeclaration single) fun found => ∀ declared ∈ found, ∀ b ∈ declared,
      (∀ e ∈ b.value, e.IsOperand o) ∧ ∀ t ∈ b.typeDecl, t.Sound o := by
  refine yields_whenEats ((yields_separatedBy (yields_blockVariable h)).bind fun declared hd => ?_)
  exact (yields_expect _).bind fun _ _ => yields_pure hd.2

/-- The statements read so far are all operands, whether or not more follow. -/
abbrev Statements (o : Origin) : List Expr ⊕ List Expr → Prop :=
  Sum.elim (fun body => ∀ e ∈ body, e.IsOperand o) fun body => ∀ e ∈ body, e.IsOperand o

theorem yields_blockStatement (h : YieldsOperand o single) (body : List Expr)
    (hbody : ∀ e ∈ body, e.IsOperand o) :
    Yields o d (blockStatement single body) (Statements o) := by
  refine yields_ifEat (yields_pure hbody) ((yields_expr h).bind fun e he => ?_)
  have hmore := forall_mem_concat hbody he
  exact yields_ifEat (yields_pure hmore) ((yields_expect _).bind fun _ _ => yields_pure hmore)

theorem yields_blockBody (h : YieldsOperand o single) (ho : o.HasPlace offset) :
    Yields o d (blockBody single offset) (Expr.IsOperand o) := by
  refine (yields_many (yields_blockDeclaration h)).bind fun declarations hdecl => ?_
  refine (yields_iterate (yields_blockStatement h) (List.forall_mem_nil _)).bind fun body hbody => ?_
  have hflat := List.forall_mem_flatten.2 hdecl
  refine yields_operand ho ⟨⟨?_, trivial, ?_, forall_mem_nil _, forall_mem_nil _, forall_mem_nil _, forall_mem_nil _⟩, rfl, rfl⟩
  · refine List.forall_mem_append.2 ⟨List.forall_mem_flatMap.2 fun b hb => ?_, hbody⟩
    exact forall_mem_toList.2 (hflat b hb).1
  · exact List.forall_mem_flatMap.2 fun b hb => forall_mem_toList.2 (hflat b hb).2

theorem yields_statementKind (h : YieldsOperand o single) :
    Yields o d (statementKind single) fun found => ∀ kind ∈ found, kind.IsOperand o := by
  refine yields_ifEat ?_ ?_
  · refine (yields_parenthesizedExpr h).bind fun condition hc => (yields_goto _).bind fun _ _ => ?_
    refine (h d).bind fun body hb => ?_
    exact yields_some (.bare rfl rfl rfl (isOperand_pair hc hb rfl) trivial)
  refine (yields_eatFirst _).bind fun _ _ => yields_ite (fun _ => ?_) fun _ => ?_
  · exact (h d).bind fun e he =>
      yields_some (.bare rfl rfl rfl (List.forall_mem_singleton.2 he) trivial)
  refine yields_ifEat (yields_some (.bare rfl rfl rfl (List.forall_mem_nil _) trivial))
    (yields_ifEat (yields_some (.bare rfl rfl rfl (List.forall_mem_nil _) trivial))
      (yields_ifEat ?_ (yields_ifEat ?_ yields_none)))
  · refine yields_variableName.bind fun name _ => (yields_expect _).bind fun _ _ => ?_
    exact (h d).bind fun e he =>
      yields_some (.bare rfl rfl rfl (List.forall_mem_singleton.2 he) trivial)
  · refine yields_start.bind fun offset ho => (yields_capturedQualifiedName 0).bind fun name _ => ?_
    refine (yields_plainName name ho).bind fun _ _ => (h d).bind fun e he => ?_
    exact yields_some (.bare rfl rfl rfl (List.forall_mem_singleton.2 he) trivial)

theorem yields_scriptingExpr (h : YieldsOperand o single) :
    Yields o d (scriptingExpr single) fun found => ∀ e ∈ found, e.IsOperand o := by
  refine yields_nextOffset.bind fun offset ho => yields_ifEat ?_ ((yields_statementKind h).bind ?_)
  · exact (yields_expect _).bind fun _ _ => (yields_blockBody h ho).some
  · rintro (_ | kind) hk
    · exact yields_none
    · exact yields_someOperand ho (hk kind rfl)

theorem yields_queryStatement (h : YieldsOperand o single) (body : List Expr)
    (hbody : ∀ e ∈ body, e.IsOperand o) :
    Yields o d (queryStatement single body) (Statements o) := by
  refine yields_atEnd.bind fun _ _ => yields_ite (fun _ => yields_pure hbody) fun _ => ?_
  refine (yields_expr h).bind fun e he => ?_
  have hmore := forall_mem_concat hbody he
  exact yields_ifEat (yields_pure hmore) (yields_pure hmore)

theorem yields_queryBody (h : YieldsOperand o single) :
    Yields o d (queryBody single) (Expr.IsOperand o) := by
  refine yields_nextOffset.bind fun offset ho => (yields_expr h).bind fun first hfirst => ?_
  refine (yields_eat _).bind fun _ _ => yields_ite (fun _ => yields_pure hfirst) fun _ => ?_
  refine (yields_iterate (yields_queryStatement h) (List.forall_mem_singleton.2 hfirst)).bind ?_
  exact fun body hbody => yields_operand ho (.bare rfl rfl rfl hbody trivial)

/-! ### Functions -/

theorem yields_annotationLiteral : Yields o d annotationLiteral fun _ => True := by
  refine yields_ifEat ?_ (yields_ifEat ?_ (yields_unexpected _))
  · exact (yields_capturedString 0).bind fun _ _ => yields_any
  · exact (yields_capturedNumber? 0).bind fun _ _ => yields_any

theorem yields_annotationLiterals : Yields o d annotationLiterals fun _ => True := by
  refine yields_ifEat ((yields_separatedBy yields_annotationLiteral).bind fun _ _ => ?_) yields_any
  exact (yields_expect _).bind fun _ _ => yields_any

theorem yields_annotation? :
    Yields o d annotation? fun found => ∀ a ∈ found, o.HasPlace a.2 := by
  refine yields_whenEats (yields_start.bind fun offset ho => ?_)
  refine (yields_capturedQualifiedName 0).bind fun name _ => ?_
  refine (yields_resolveName name _ ho).bind fun _ _ => ?_
  exact yields_annotationLiterals.bind fun _ _ => yields_pure ho

theorem yields_annotationList : Yields o d annotationList fun _ => True := by
  refine yields_iterate_any (fun annotations => yields_annotation?.bind ?_) []
  rintro (_ | ⟨a, offset⟩) ho
  · exact yields_any
  · refine yields_ite (fun _ => ?_) fun _ => yields_any
    exact (yields_record (ho _ rfl) _ _).bind fun _ _ => yields_any

theorem yields_declaredType : Yields o d declaredType fun found => ∀ t ∈ found, t.Sound o :=
  yields_whenEats (yields_sequenceType .variableDeclaration)

theorem yields_param (params : List Param) :
    Yields o d (param params) fun p => ∀ t ∈ p.typeDecl, t.Sound o := by
  refine (yields_expect _).bind fun _ _ => yields_start.bind fun offset ho => ?_
  refine (yields_capturedQualifiedName 0).bind fun name _ => (yields_plainName name ho).bind ?_
  have hend (name : QName) : Yields o d (do
      return Param.mk name (← declaredType)) fun p => ∀ t ∈ p.typeDecl, t.Sound o :=
    yields_declaredType.bind fun _ ht => yields_pure ht
  refine fun name _ => yields_ite (fun _ => ?_) fun _ => hend name
  exact (yields_record ho _ _).bind fun _ _ => hend name

theorem yields_paramList :
    Yields o d paramList fun params => ∀ t ∈ Param.types params, t.Sound o := by
  have hstep (params : List Param) (h : ∀ p ∈ params, ∀ t ∈ p.typeDecl, t.Sound o) :
      Yields o d (addParam params) (Sum.elim (fun params => ∀ p ∈ params, ∀ t ∈ p.typeDecl, t.Sound o)
        fun params => ∀ p ∈ params, ∀ t ∈ p.typeDecl, t.Sound o) := by
    refine (yields_param params).bind fun p hp => ?_
    exact yields_ifEat (yields_pure (forall_mem_concat h hp)) (yields_pure (forall_mem_concat h hp))
  refine yields_ifEat (yields_pure (List.forall_mem_nil _)) ?_
  refine (yields_iterate hstep (List.forall_mem_nil _)).bind fun params hparams => ?_
  refine (yields_expect _).bind fun _ _ => yields_pure ?_
  exact List.forall_mem_flatMap.2 fun p hp => forall_mem_toList.2 (hparams p hp)

theorem yields_functionBody (h : YieldsOperand o single) (statements : Bool)
    (ho : o.HasPlace offset) :
    Yields o d (functionBody single statements offset) (Expr.IsOperand o) :=
  yields_ite (fun _ => yields_blockBody h ho) fun _ => yields_exprUpToBrace h ho

theorem yields_inlineFunction (h : YieldsOperand o single) :
    Yields o d (inlineFunction single) (Expr.IsOperand o) := by
  refine yields_nextOffset.bind fun offset ho => yields_annotationList.bind fun annotations _ => ?_
  refine (yields_expect _).bind fun _ _ => (yields_expect _).bind fun _ _ => ?_
  refine yields_paramList.bind fun params hp => yields_declaredType.bind fun type ht => ?_
  refine (yields_expect _).bind fun _ _ => yields_start.bind fun place hplace => ?_
  refine (yields_functionBody h false hplace).bind fun body hbody => yields_operand ho ?_
  have htypes := List.forall_mem_append.2 ⟨hp, forall_mem_toList.2 ht⟩
  exact ⟨⟨List.forall_mem_singleton.2 hbody, trivial, htypes, forall_mem_nil _, forall_mem_nil _, forall_mem_nil _, forall_mem_nil _⟩, rfl, rfl⟩

end Grammar

end XQuerySyntax
