import XQuerySyntax.Grammar.Expr
import XQuerySyntax.Proofs.Tree.FullText
import XQuerySyntax.Grammar.Path
import XQuerySyntax.Proofs.Tree.Markup

/-! The trees of paths and primary expressions. Steps stand in paths only: a path of one step that is no
axis step is that step itself. Arguments left open stand in calls only. -/

namespace XQuerySyntax.Grammar

open XQuerySyntax.Parser
open List (forall_mem_nil)

variable {o : Origin} {d : Nat} {single : Parser Expr} {offset : Nat}

/-! ### Steps -/

theorem yields_nameTestNamespace (axis : Axis) : Yields o d (nameTestNamespace axis) fun _ => True :=
  yields_ite (fun _ => yields_any) fun _ => yields_consult _

theorem yields_nodeTest (axis : Axis) : Yields o d (nodeTest axis) NodeTest.WellFormed := by
  refine yields_kindTest.bind ?_
  rintro (_ | test) htest
  · refine (yields_nameTestNamespace axis).bind fun default _ => (yields_nameTest default).bind ?_
    rintro (_ | test) -
    · exact yields_unexpected _
    · exact yields_pure trivial
  · exact yields_pure (htest test rfl)

theorem yields_stepTest : Yields o d stepTest fun found =>
    ∀ t ∈ found, t.2.1.WellFormed ∧ o.HasPlace t.2.2 := by
  refine yields_nextOffset.bind fun begin hbegin => yields_ifEat ?_ (yields_ifEat ?_ (yields_ifEat ?_
    (yields_kindTest.bind ?_)))
  · refine yields_start.bind fun offset ho => (yields_capturedName 0).bind fun name _ => ?_
    dsimp only
    split
    · exact (yields_nodeTest _).bind fun test ht => yields_some ⟨ht, ho⟩
    · exact yields_fatal ho _ _
  · refine yields_start.bind fun offset ho => ?_
    exact (yields_nodeTest _).bind fun test ht => yields_some ⟨ht, ho⟩
  · exact yields_start.bind fun offset ho => yields_some ⟨trivial, ho⟩
  · rintro (_ | test) htest
    · refine (yields_nameTestNamespace _).bind fun default _ => (yields_nameTest default).bind ?_
      rintro (_ | test) -
      · exact yields_none
      · exact yields_some ⟨trivial, hbegin⟩
    · exact yields_some ⟨htest test rfl, hbegin⟩

/-- A sound tree that may stand as a step of a path. -/
abbrev IsPathStep (o : Origin) (e : Expr) : Prop := e.Sound o ∧ ¬e.kind.isPlaceholder

/-- A sound tree that may stand as an argument of a call. -/
abbrev IsArgument (o : Origin) (e : Expr) : Prop := e.Sound o ∧ ¬e.kind.isStep

/-- The step that a double slash stands for. -/
abbrev IsDescendantStep (o : Origin) (e : Expr) : Prop :=
  IsPathStep o e ∧ e.kind = .step .descendantOrSelf (.kind .anyKind) []

theorem yields_descendantStep (ho : o.HasPlace offset) :
    Yields o d (descendantStep offset) (IsDescendantStep o) := by
  refine Yields.weaken (yields_node ?_ ho) ?_
  · exact .bare rfl (List.forall_mem_nil _) trivial
  · rintro e ⟨hs, hk, -⟩
    refine ⟨⟨hs, ?_⟩, hk⟩
    rw [hk]
    exact Bool.false_ne_true

theorem yields_filtered {base : Expr} {predicates : List Expr} (hb : base.IsOperand o)
    (hp : ∀ e ∈ predicates, e.IsOperand o) :
    Yields o d (filtered base predicates) (Expr.IsOperand o) := by
  cases predicates with
  | nil => exact yields_pure hb
  | cons p ps =>
    exact yields_operand hb.sound.offset
      (.bare rfl rfl rfl (List.forall_mem_cons.2 ⟨hb, hp⟩) (List.cons_ne_nil _ _))

/-! ### Primary expressions -/

theorem yields_literal? : Yields o d literal? fun found => ∀ e ∈ found, e.IsOperand o := by
  refine yields_ifEat ?_ (yields_ifEat ?_ yields_none)
  · refine yields_start.bind fun offset ho => (yields_capturedNumber? 0).bind fun value _ => ?_
    exact yields_someOperand ho (.bare rfl rfl rfl (List.forall_mem_nil _) trivial)
  · refine yields_start.bind fun offset ho => (yields_capturedString 0).bind fun value _ => ?_
    exact yields_someOperand ho (.bare rfl rfl rfl (List.forall_mem_nil _) trivial)

theorem yields_namedFunctionRef : Yields o d namedFunctionRef (Expr.IsOperand o) := by
  refine yields_start.bind fun offset ho => (yields_capturedQualifiedName 0).bind fun name _ => ?_
  refine (yields_capturedNumber? 1).bind fun arity _ => ?_
  split
  · exact (yields_functionName name ho).bind fun _ _ =>
      yields_operand ho (.bare rfl rfl rfl (List.forall_mem_nil _) trivial)
  · exact yields_fatal ho _ _

theorem yields_predicate (h : YieldsOperand o single) :
    Yields o d (predicate single) (Expr.IsOperand o) :=
  (yields_expr h).bind fun _ he => (yields_expect _).bind fun _ _ => yields_pure he

theorem yields_predicates (h : YieldsOperand o single) :
    Yields o d (predicates single) fun ps => ∀ e ∈ ps, e.IsOperand o :=
  yields_many (yields_whenEats (yields_predicate h))

theorem yields_axisStep (h : YieldsOperand o single) :
    Yields o d (axisStep single) fun found => ∀ e ∈ found, IsPathStep o e := by
  refine yields_stepTest.bind ?_
  rintro (_ | ⟨axis, test, offset⟩) ht
  · exact yields_none
  · obtain ⟨hwf, ho⟩ := ht _ rfl
    refine (yields_goto _).bind fun _ _ => (yields_predicates h).bind fun ps hps => ?_
    refine Yields.some (Yields.weaken (yields_node ?_ ho) ?_)
    · exact .bare rfl hps hwf
    · rintro e ⟨hs, hk, -⟩
      refine ⟨hs, ?_⟩
      rw [hk]
      exact Bool.false_ne_true

theorem yields_argument (h : YieldsOperand o single) :
    Yields o d (argument single) (IsArgument o) := by
  refine yields_ifEat (yields_start.bind fun offset ho => ?_) ((h d).weaken fun e he => ?_)
  · refine Yields.weaken (yields_node ?_ ho) ?_
    · exact .bare rfl (List.forall_mem_nil _) trivial
    · rintro e ⟨hs, hk, -⟩
      refine ⟨hs, ?_⟩
      rw [hk]
      exact Bool.false_ne_true
  · exact ⟨he.sound, he.not_step⟩

theorem yields_argumentList (h : YieldsOperand o single) :
    Yields o d (argumentList single) fun args => ∀ e ∈ args, IsArgument o e := by
  refine yields_ifEat (yields_pure (List.forall_mem_nil _)) ?_
  refine (yields_separatedBy (yields_argument h)).bind fun args hargs => ?_
  exact (yields_expect _).bind fun _ _ => yields_pure hargs.2

/-- An expression and the predicates behind it, all operands. -/
abbrev SoundApplication (o : Origin) (state : Expr × List Expr) : Prop :=
  state.1.IsOperand o ∧ ∀ e ∈ state.2, e.IsOperand o

theorem yields_applicationStep (h : YieldsOperand o single) (state : Expr × List Expr)
    (hstate : SoundApplication o state) :
    Yields o d (applicationStep single state) (Sum.elim (SoundApplication o) (Expr.IsOperand o)) := by
  obtain ⟨base, ps⟩ := state
  obtain ⟨hbase, hps⟩ := hstate
  refine yields_ifEat ?_ (yields_ifEat ?_ ?_)
  · exact (yields_predicate h).bind fun p hp => yields_pure ⟨hbase, forall_mem_concat hps hp⟩
  · refine (yields_filtered hbase hps).bind fun function hf => ?_
    refine (yields_argumentList h).bind fun args hargs => ?_
    refine (yields_operand hf.sound.offset ?_).bind fun e he => yields_pure ⟨he, List.forall_mem_nil _⟩
    exact ⟨⟨List.forall_mem_singleton.2 hf, trivial, forall_mem_nil _, forall_mem_nil _, forall_mem_nil _, forall_mem_nil _, hargs⟩, rfl, rfl⟩
  · exact (yields_filtered hbase hps).bind fun e he => yields_pure he

theorem yields_applications (h : YieldsOperand o single) {base : Expr} (hb : base.IsOperand o) :
    Yields o d (applications single base) (Expr.IsOperand o) :=
  yields_iterate (yields_applicationStep h) ⟨hb, List.forall_mem_nil _⟩

theorem yields_parenthesized (h : YieldsOperand o single) :
    Yields o d (parenthesized single) (Expr.IsOperand o) := by
  refine yields_start.bind fun offset ho => yields_ifEat (yields_emptySequence ho) ?_
  exact (yields_expr h).bind fun _ he => (yields_expect _).bind fun _ _ => yields_pure he

theorem yields_functionCall? (h : YieldsOperand o single) :
    Yields o d (functionCall? single) fun found => ∀ e ∈ found, e.IsOperand o := by
  refine (yields_peek _).bind fun _ _ => yields_ite (fun _ => yields_none) fun _ => ?_
  refine (yields_capturedQualifiedName 0).bind fun name _ => yields_ite (fun _ => yields_none) fun _ => ?_
  refine (yields_expect _).bind fun _ _ => yields_start.bind fun offset ho => ?_
  refine (yields_functionName name ho).bind fun name _ => ?_
  refine (yields_argumentList h).bind fun args hargs => yields_someOperand ho ?_
  exact ⟨⟨forall_mem_nil _, trivial, forall_mem_nil _, forall_mem_nil _, forall_mem_nil _, forall_mem_nil _, hargs⟩, rfl, rfl⟩

theorem yields_primary (h : YieldsOperand o single) :
    Yields o d (primary single) fun found => ∀ e ∈ found, e.IsOperand o := by
  have hfunction := (yields_inlineFunction (o := o) (d := d) h).some
  refine yields_literal?.bind ?_
  rintro (_ | e) he
  · refine yields_ifPeek ?_ (yields_ifEat (yields_parenthesized h).some ((yields_peek _).bind ?_))
    · refine yields_variableName.bind fun name _ => yields_start.bind fun offset ho => ?_
      exact yields_someOperand ho (.bare rfl rfl rfl (List.forall_mem_nil _) trivial)
    intro dots _
    extract_lets rest
    have hrest : Yields o d (rest ()) fun found => ∀ e ∈ found, e.IsOperand o := by
      refine (yields_directConstructor h).bind ?_
      rintro (_ | e) he
      · refine (yields_computedConstructor h).bind ?_
        rintro (_ | e) he
        · refine yields_ifEat ?_ (yields_ifEat ?_ (yields_ifPeek hfunction (yields_ifPeek hfunction
            (yields_ifEat yields_namedFunctionRef.some (yields_functionCall? h)))))
          · refine yields_start.bind fun offset ho => (yields_bracedExpr h).bind fun e he => ?_
            exact yields_someOperand ho
              (.bare rfl rfl rfl (List.forall_mem_singleton.2 he) trivial)
          · refine yields_start.bind fun offset ho => (yields_bracedExpr h).bind fun e he => ?_
            exact yields_someOperand ho
              (.bare rfl rfl rfl (List.forall_mem_singleton.2 he) trivial)
        · exact yields_pure he
      · exact yields_pure he
    refine yields_ite (fun _ => yields_ifEat ?_ hrest) fun _ => hrest
    refine yields_start.bind fun offset ho => ?_
    exact yields_someOperand ho (.bare rfl rfl rfl (List.forall_mem_nil _) trivial)
  · exact yields_pure he

/-! ### Paths -/

theorem yields_stepExpr (h : YieldsOperand o single) :
    Yields o d (stepExpr single) fun found => ∀ e ∈ found, IsPathStep o e := by
  refine (yields_primary h).bind ?_
  rintro (_ | base) hbase
  · exact yields_axisStep h
  · exact ((yields_applications h (hbase base rfl)).weaken fun e he =>
      ⟨he.sound, he.not_placeholder⟩).some

theorem yields_requiredStep (h : YieldsOperand o single) :
    Yields o d (requiredStep single) (IsPathStep o) := by
  refine (yields_stepExpr h).bind ?_
  rintro (_ | step) hstep
  · exact yields_unexpected _
  · exact yields_pure (hstep step rfl)

theorem yields_furtherSteps (h : YieldsOperand o single) :
    Yields o d (furtherSteps single) fun found => ∀ steps ∈ found, ∀ e ∈ steps, IsPathStep o e := by
  refine yields_ifEat ?_ (yields_ifEat ?_ yields_none)
  · refine yields_start.bind fun offset ho => (yields_descendantStep ho).bind fun descend hdescend => ?_
    refine (yields_requiredStep h).bind fun step hstep => yields_some ?_
    exact List.forall_mem_cons.2 ⟨hdescend.1, List.forall_mem_singleton.2 hstep⟩
  · exact (yields_requiredStep h).bind fun step hstep =>
      yields_some (List.forall_mem_singleton.2 hstep)

/-- A path that begins with some steps; one step alone has to be a step of the grammar only if the path
is relative. -/
theorem yields_relativePath (h : YieldsOperand o single) {origin : PathRoot} {first : List Expr}
    (ho : o.HasPlace offset) (hne : first ≠ []) (hfirst : ∀ e ∈ first, IsPathStep o e)
    (hroot : ∀ more, origin = .rootDescendants →
      (ExprKind.path .rootDescendants (first ++ more)).Shaped) :
    Yields o d (relativePath single origin first offset) (Expr.IsOperand o) := by
  refine (yields_many (yields_furtherSteps h)).bind fun more hmore => ?_
  have hsteps : ∀ e ∈ first ++ more.flatten, IsPathStep o e :=
    List.forall_mem_append.2 ⟨hfirst, List.forall_mem_flatten.2 hmore⟩
  have hpath (hs : (ExprKind.path origin (first ++ more.flatten)).Shaped) :
      Yields o d (node (.path origin (first ++ more.flatten)) offset) (Expr.IsOperand o) :=
    yields_operand ho ⟨⟨forall_mem_nil _, hs, forall_mem_nil _, forall_mem_nil _, forall_mem_nil _, hsteps, forall_mem_nil _⟩, rfl, rfl⟩
  dsimp only
  split
  · rename_i step hone
    split
    · rename_i axis test ps hk
      refine hpath ⟨fun hnil => hne (List.append_eq_nil_iff.1 hnil).1, fun s hs => ?_⟩
      obtain rfl : step = s := by
        rw [hone] at hs
        exact (List.cons.inj hs).1
      rw [hk]
      rfl
    · rename_i hk
      have hstep := hsteps step (by rw [hone]; exact List.mem_cons_self)
      refine yields_pure ⟨hstep.1, fun hs => ?_, hstep.2⟩
      cases hkind : step.kind with
      | step axis test ps => exact hk axis test ps hkind
      | _ =>
        rw [hkind] at hs
        cases hs
  · rename_i origin _ _ hmany
    refine hpath ?_
    cases origin with
    | relative =>
      refine ⟨fun hnil => hne (List.append_eq_nil_iff.1 hnil).1, fun s hs => ?_⟩
      exact (hmany s rfl hs).elim
    | root => trivial
    | rootDescendants => exact hroot _ rfl

theorem yields_pathExpr (h : YieldsOperand o single) :
    Yields o d (pathExpr single) (Expr.IsOperand o) := by
  refine yields_ifEat ?_ (yields_ifEat ?_ ?_)
  · refine yields_start.bind fun offset ho => (yields_descendantStep ho).bind fun descend hdescend => ?_
    refine (yields_requiredStep h).bind fun step hstep => ?_
    refine yields_relativePath h ho (List.cons_ne_nil _ _) ?_ fun more _ => ⟨?_, ?_⟩
    · exact List.forall_mem_cons.2 ⟨hdescend.1, List.forall_mem_singleton.2 hstep⟩
    · exact Nat.le_add_left _ _
    · rintro _ ⟨⟩
      exact hdescend.2
  · refine yields_start.bind fun offset ho => (yields_stepExpr h).bind ?_
    rintro (_ | step) hstep
    · refine (yields_goto _).bind fun _ _ => yields_operand ho ?_
      exact .bare rfl rfl rfl (List.forall_mem_nil _) trivial
    · exact yields_relativePath h ho (List.cons_ne_nil _ _)
        (List.forall_mem_singleton.2 (hstep step rfl)) nofun
  · refine (yields_requiredStep h).bind fun step hstep => ?_
    exact yields_relativePath h hstep.1.offset (List.cons_ne_nil _ _)
      (List.forall_mem_singleton.2 hstep) nofun

end XQuerySyntax.Grammar

/-! ### Expressions

The trees of operators and of single expressions. Every layer of operators yields operands if the
layer below it does, and single expressions do by induction on how far they may nest. -/

namespace XQuerySyntax.Grammar

open XQuerySyntax.Parser
open List (forall_mem_nil)

variable {o : Origin} {d : Nat} {single operand : Parser Expr} {offset : Nat}

/-! ### Operators -/

theorem yields_chain (operators : OperatorTable) (h : Yields o d operand (Expr.IsOperand o)) :
    Yields o d (chain operators operand) (Expr.IsOperand o) := by
  have hstep (left : Expr) (hl : left.IsOperand o) :
      Yields o d (chainStep operators operand left) (Sum.elim (Expr.IsOperand o) (Expr.IsOperand o)) := by
    refine (yields_eatFirst _).bind ?_
    rintro (_ | op) -
    · exact yields_pure hl
    · refine yields_start.bind fun offset ho => h.bind fun right hr => ?_
      refine (yields_operand ho ?_).bind fun e he => yields_pure he
      exact .bare rfl rfl rfl (isOperand_pair hl hr rfl) trivial
  exact h.bind fun first hf => yields_iterate hstep hf

theorem yields_suffixed (operator : Rule) {form : Expr → Parser (ExprKind Expr)}
    (h : Yields o d operand (Expr.IsOperand o))
    (hf : ∀ left : Expr, left.IsOperand o → Yields o d (form left) (ExprKind.IsOperand o)) :
    Yields o d (suffixed operator operand form) (Expr.IsOperand o) := by
  refine h.bind fun left hl => yields_ifEat ?_ (yields_pure hl)
  exact yields_start.bind fun offset ho => (hf left hl).bind fun kind hk => yields_operand ho hk

theorem yields_sign? : Yields o d sign? fun found => ∀ sign ∈ found, o.HasPlace sign.2 := by
  refine (yields_eatFirst _).bind ?_
  rintro (_ | op) -
  · exact yields_none
  · exact yields_start.bind fun offset ho => yields_some ho

theorem yields_applySigns {e : Expr} (he : e.IsOperand o) (signs : List (UnaryOperator × Nat))
    (h : ∀ sign ∈ signs, o.HasPlace sign.2) :
    Yields o d (applySigns e signs) (Expr.IsOperand o) := by
  induction signs with
  | nil => exact yields_pure he
  | cons sign signs ih =>
    obtain ⟨hsign, hsigns⟩ := List.forall_mem_cons.1 h
    refine (ih hsigns).bind fun operand hoperand => yields_operand hsign ?_
    exact .bare rfl rfl rfl (List.forall_mem_singleton.2 hoperand) trivial

theorem yields_validationMode (name : String) (ho : o.HasPlace offset) :
    Yields o d (validationMode name offset) fun _ => True :=
  yields_ite (fun _ => yields_any) fun _ => yields_ite (fun _ => yields_any) fun _ => yields_fatal ho _ _

theorem yields_valueExpr (h : YieldsOperand o single) :
    Yields o d (valueExpr single) (Expr.IsOperand o) := by
  have hvalidate (mode : Option ValidationMode) (name : Option QName) {offset : Nat}
      (ho : o.HasPlace offset) : Yields o d (do
        return ← node (.validate mode name (← bracedExpr single)) offset) (Expr.IsOperand o) :=
    (yields_bracedExpr h).bind fun e he =>
      yields_operand ho (.bare rfl rfl rfl (List.forall_mem_singleton.2 he) trivial)
  refine yields_ifEat ?_ (yields_ifEat ?_ (yields_ifEat ?_ ?_))
  · refine yields_start.bind fun offset ho => (yields_capturedQualifiedName 0).bind fun name _ => ?_
    exact (yields_elementName name ho).bind fun _ _ => hvalidate _ _ ho
  · refine yields_start.bind fun offset ho => (yields_capturedName 0).bind fun name _ => ?_
    exact (yields_validationMode name ho).bind fun _ _ => hvalidate _ _ ho
  · exact yields_start.bind fun offset ho => hvalidate _ _ ho
  · exact yields_peek_bind (yieldsAt_extensionExpr h) (yields_pathExpr h)

theorem yields_unaryExpr (h : YieldsOperand o single) :
    Yields o d (unaryExpr single) (Expr.IsOperand o) := by
  refine (yields_many yields_sign?).bind fun signs hsigns => ?_
  exact (yields_valueExpr h).bind fun e he => yields_applySigns he signs hsigns

theorem yields_castExpr (h : YieldsOperand o single) :
    Yields o d (castExpr single) (Expr.IsOperand o) :=
  yields_suffixed _ (yields_unaryExpr h) fun _ hl => yields_singleType.bind fun _ _ =>
    yields_pure (.bare rfl rfl rfl (List.forall_mem_singleton.2 hl) trivial)

theorem yields_castableExpr (h : YieldsOperand o single) :
    Yields o d (castableExpr single) (Expr.IsOperand o) :=
  yields_suffixed _ (yields_castExpr h) fun _ hl => yields_singleType.bind fun _ _ =>
    yields_pure (.bare rfl rfl rfl (List.forall_mem_singleton.2 hl) trivial)

theorem yields_treatExpr (h : YieldsOperand o single) :
    Yields o d (treatExpr single) (Expr.IsOperand o) := by
  refine yields_suffixed _ (yields_castableExpr h) fun _ hl => ?_
  refine (yields_sequenceType .operator).bind fun t ht => yields_pure ?_
  have htypes := List.forall_mem_singleton.2 ht
  exact ⟨⟨List.forall_mem_singleton.2 hl, trivial, htypes, forall_mem_nil _, forall_mem_nil _, forall_mem_nil _, forall_mem_nil _⟩, rfl, rfl⟩

theorem yields_instanceOfExpr (h : YieldsOperand o single) :
    Yields o d (instanceOfExpr single) (Expr.IsOperand o) := by
  refine yields_suffixed _ (yields_treatExpr h) fun _ hl => ?_
  refine (yields_sequenceType .operator).bind fun t ht => yields_pure ?_
  have htypes := List.forall_mem_singleton.2 ht
  exact ⟨⟨List.forall_mem_singleton.2 hl, trivial, htypes, forall_mem_nil _, forall_mem_nil _, forall_mem_nil _, forall_mem_nil _⟩, rfl, rfl⟩

theorem yields_unionExpr (h : YieldsOperand o single) :
    Yields o d (unionExpr single) (Expr.IsOperand o) :=
  yields_chain _ (yields_chain _ (yields_instanceOfExpr h))

theorem yields_additiveExpr (h : YieldsOperand o single) :
    Yields o d (additiveExpr single) (Expr.IsOperand o) :=
  yields_chain _ (yields_chain _ (yields_unionExpr h))

theorem yields_rangeExpr (h : YieldsOperand o single) :
    Yields o d (rangeExpr single) (Expr.IsOperand o) :=
  yields_suffixed _ (yields_additiveExpr h) fun _ hl => (yields_additiveExpr h).bind fun _ hr =>
    yields_pure (.bare rfl rfl rfl (isOperand_pair hl hr rfl) trivial)

theorem yields_ftContainsExpr (h : YieldsOperand o single) :
    Yields o d (ftContainsExpr single) (Expr.IsOperand o) := by
  refine (yields_rangeExpr h).bind fun left hl => (yields_eatFirst _).bind ?_
  rintro (_ | _) -
  · exact yields_pure hl
  · refine yields_start.bind fun offset ho => ?_
    refine (yields_ftSelection h fun _ => yields_additiveExpr h).bind fun selection hs => ?_
    refine (yields_whenEats (yields_unionExpr h)).bind fun without hw => yields_operand ho ?_
    have hoperands := List.forall_mem_cons.2
      ⟨hl, List.forall_mem_append.2 ⟨hs.operands, forall_mem_toList.2 hw⟩⟩
    exact ⟨⟨hoperands, hs.wellFormed, forall_mem_nil _, forall_mem_nil _, hs.options, forall_mem_nil _, forall_mem_nil _⟩, rfl, rfl⟩

theorem yields_comparisonExpr (h : YieldsOperand o single) :
    Yields o d (comparisonExpr single) (Expr.IsOperand o) := by
  refine (yields_ftContainsExpr h).bind fun left hl => (yields_eatFirst _).bind ?_
  rintro (_ | op) -
  · exact yields_pure hl
  · refine yields_start.bind fun offset ho => (yields_ftContainsExpr h).bind fun right hr => ?_
    exact yields_operand ho (.bare rfl rfl rfl (isOperand_pair hl hr rfl) trivial)

theorem yields_orExpr (h : YieldsOperand o single) :
    Yields o d (orExpr single) (Expr.IsOperand o) :=
  yields_chain _ (yields_chain _ (yields_comparisonExpr h))

/-! ### Expressions that begin with a keyword -/

theorem yields_errorTest : Yields o d errorTest fun _ => True := by
  refine (yields_nameTest none).bind ?_
  rintro (_ | test) -
  · exact yields_unexpected _
  · exact yields_any

theorem yields_catchTests :
    Yields o d catchTests fun found => ∀ t ∈ found, t.1 ≠ [] := by
  refine yields_ifEat ?_ (yields_ifEat ?_ yields_none)
  · refine yields_errorTest.bind fun test _ => ?_
    refine (yields_many (yields_whenEats yields_variableName)).bind fun names _ => ?_
    exact (yields_expect _).bind fun _ _ => yields_some (List.cons_ne_nil _ _)
  · exact (yields_separatedBy yields_errorTest).bind fun tests ht => yields_some ht.1

theorem yields_quantified (h : YieldsOperand o single) (quantifier : Quantifier)
    (ho : o.HasPlace offset) :
    Yields o d (quantified single quantifier offset) (Expr.IsOperand o) := by
  have hbinding : Yields o d (quantifiedBinding single) fun b =>
      b.value.IsOperand o ∧ ∀ t ∈ b.typeDecl, t.Sound o :=
    yields_typedVariable.bind fun ⟨name, type⟩ ht => (yields_expect _).bind fun _ _ =>
      (h d).bind fun _ he => yields_pure ⟨he, ht⟩
  refine (yields_separatedBy hbinding).bind fun bindings hb => (yields_expect _).bind fun _ _ => ?_
  refine (h d).bind fun satisfies hs => yields_operand ho
    ⟨⟨?_, hb.1, ?_, forall_mem_nil _, forall_mem_nil _, forall_mem_nil _, forall_mem_nil _⟩, rfl, rfl⟩
  · refine forall_mem_concat (List.forall_mem_flatMap.2 fun b hb' => ?_) hs
    exact List.forall_mem_singleton.2 (hb.2 b hb').1
  · exact List.forall_mem_flatMap.2 fun b hb' => forall_mem_toList.2 (hb.2 b hb').2

theorem yields_conditional (h : YieldsOperand o single) (ho : o.HasPlace offset) :
    Yields o d (conditional single offset) (Expr.IsOperand o) := by
  refine (yields_parenthesizedExpr h).bind fun condition hc => (yields_expect _).bind fun _ _ => ?_
  refine (h d).bind fun yes hy => (yields_expect _).bind fun _ _ => (h d).bind fun no hn => ?_
  refine yields_operand ho (.bare rfl rfl rfl ?_ trivial)
  exact List.forall_mem_cons.2 ⟨hc, List.forall_mem_cons.2 ⟨hy, List.forall_mem_singleton.2 hn⟩⟩

/-- A branch has a value to compare with. -/
theorem yields_switchCase (h : YieldsOperand o single) :
    Yields o d (switchCase single) fun found =>
      ∀ c ∈ found, c.operands ≠ [] ∧ ∀ e ∈ c.children, e.IsOperand o := by
  refine (yields_many (yields_whenEats (h d))).bind ?_
  rintro (_ | ⟨operand, operands⟩) ho
  · exact yields_none
  · refine (yields_expect _).bind fun _ _ => (h d).bind fun result hr => ?_
    exact yields_some ⟨List.cons_ne_nil _ _, forall_mem_concat ho hr⟩

theorem yields_switchExpr (h : YieldsOperand o single) (ho : o.HasPlace offset) :
    Yields o d (switchExpr single offset) (Expr.IsOperand o) := by
  refine (yields_parenthesizedExpr h).bind fun operand hoperand => ?_
  refine (yields_many (yields_switchCase h)).bind fun cases hcases =>
    yields_ite (fun _ => yields_unexpected_bind _) fun hne => ?_
  refine (yields_expect _).bind fun _ _ => (h d).bind fun default hdefault => yields_operand ho ?_
  exact .bare rfl rfl rfl (List.forall_mem_cons.2 ⟨hoperand, forall_mem_concat
      (List.forall_mem_flatMap.2 fun c hc => (hcases c hc).2) hdefault⟩) (⟨fun hnil => hne (List.isEmpty_iff.2 hnil), fun c hc => (hcases c hc).1⟩)

theorem yields_caseVariable : Yields o d caseVariable fun _ => True := by
  refine yields_ifPeek (yields_variableName.bind fun _ _ => ?_) yields_any
  exact (yields_expect _).bind fun _ _ => yields_any

/-- A branch has a type to compare with. -/
theorem yields_typeswitchCase (h : YieldsOperand o single) :
    Yields o d (typeswitchCase single) fun found =>
      ∀ c ∈ found, (c.types ≠ [] ∧ ∀ t ∈ c.types, t.Sound o) ∧ c.result.IsOperand o := by
  refine yields_whenEats (yields_caseVariable.bind fun name _ => ?_)
  refine (yields_separatedBy (yields_sequenceType .operator)).bind fun types ht => ?_
  exact (yields_expect _).bind fun _ _ => (h d).bind fun result hr => yields_pure ⟨ht, hr⟩

theorem yields_defaultVariable : Yields o d defaultVariable fun _ => True := by
  refine yields_ifEat (yields_variableName.bind fun _ _ => ?_) ?_
  · exact (yields_expect _).bind fun _ _ => yields_any
  · exact (yields_expect _).bind fun _ _ => yields_any

theorem yields_typeswitchExpr (h : YieldsOperand o single) (ho : o.HasPlace offset) :
    Yields o d (typeswitchExpr single offset) (Expr.IsOperand o) := by
  refine (yields_parenthesizedExpr h).bind fun operand hoperand => ?_
  refine (yields_many (yields_typeswitchCase h)).bind fun cases hcases =>
    yields_ite (fun _ => yields_unexpected_bind _) fun hne => ?_
  refine yields_defaultVariable.bind fun name _ => (h d).bind fun default hdefault => yields_operand ho ?_
  refine ⟨⟨?_, ?_, ?_, forall_mem_nil _, forall_mem_nil _, forall_mem_nil _, forall_mem_nil _⟩, rfl, rfl⟩
  · exact List.forall_mem_cons.2 ⟨hoperand, forall_mem_concat
      (List.forall_mem_flatMap.2 fun c hc => List.forall_mem_singleton.2 (hcases c hc).2) hdefault⟩
  · exact ⟨fun hnil => hne (List.isEmpty_iff.2 hnil), fun c hc => (hcases c hc).1.1⟩
  · exact List.forall_mem_flatMap.2 fun c hc => (hcases c hc).1.2

theorem yields_catchClause (h : YieldsOperand o single) :
    Yields o d (catchClause single) fun found => ∀ k ∈ found, k.tests ≠ [] ∧ k.body.IsOperand o := by
  refine yields_catchTests.bind ?_
  rintro (_ | ⟨tests, names⟩) ht
  · exact yields_none
  · exact (yields_enclosedExpr h).bind fun body hb => yields_some ⟨ht _ rfl, hb⟩

theorem yields_tryCatch (h : YieldsOperand o single) (ho : o.HasPlace offset) :
    Yields o d (tryCatch single offset) (Expr.IsOperand o) := by
  refine (yields_enclosedExpr h).bind fun body hbody => ?_
  refine (yields_many (yields_catchClause h)).bind fun catches hcatches =>
    yields_ite (fun _ => yields_unexpected_bind _) fun hne => ?_
  refine yields_operand ho (.bare rfl rfl rfl ?_ ?_)
  · exact List.forall_mem_cons.2 ⟨hbody, List.forall_mem_flatMap.2 fun k hk =>
      List.forall_mem_singleton.2 (hcatches k hk).2⟩
  · exact ⟨fun hnil => hne (List.isEmpty_iff.2 hnil), fun k hk => (hcatches k hk).1⟩

/-! ### Single expressions -/

theorem yields_singleOf (h : YieldsOperand o single) :
    Yields o d (singleOf single) (Expr.IsOperand o) := by
  refine (yields_flwor h).bind ?_
  rintro (_ | e) he
  · refine yields_ifEat ?_ (yields_ifEat ?_ (yields_ifEat ?_ (yields_ifEat ?_ (yields_ifEat ?_
      (yields_ifEat ?_ ((yields_updateExpr h).bind ?_))))))
    · exact yields_start.bind fun offset ho => yields_quantified h _ ho
    · exact yields_start.bind fun offset ho => yields_quantified h _ ho
    · exact yields_start.bind fun offset ho => yields_switchExpr h ho
    · exact yields_start.bind fun offset ho => yields_typeswitchExpr h ho
    · exact yields_start.bind fun offset ho => yields_conditional h ho
    · exact yields_start.bind fun offset ho => yields_tryCatch h ho
    · rintro (_ | e) he
      · refine (yields_scriptingExpr h).bind ?_
        rintro (_ | e) he
        · exact yields_orExpr h
        · exact yields_pure (he e rfl)
      · exact yields_pure (he e rfl)
  · exact yields_pure (he e rfl)

/-- However far they may nest, single expressions are operands and leave the context as it was. -/
theorem yields_singleWithin (n : Nat) : YieldsOperand o (singleWithin n) := by
  induction n with
  | zero => exact fun _ => yields_exhausted
  | succ n ih => exact fun _ => yields_nested fun _ => yields_singleOf ih

theorem yields_exprSingle : YieldsOperand o exprSingle :=
  fun _ => yields_get.bind fun _ _ => yields_singleWithin _ _

end XQuerySyntax.Grammar
