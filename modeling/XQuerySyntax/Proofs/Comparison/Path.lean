import XQuerySyntax.Proofs.Comparison.Markup
import XQuerySyntax.Proofs.Tree.Shape

/-! Constructors, primary expressions, steps and paths in two runs. -/

namespace XQuerySyntax.Grammar

open XQuerySyntax.Parser Comparison

attribute [local simp] owes_kind ExprKind.belongsTo ExprKind.children ComputedName.children or_assoc

variable {S : Comparison} {o o' : Nat} {single single' : Parser Expr}

/-! ### Computed constructors -/

theorem pairs_computedName (h : S.Pairs S.expr single single') :
    S.Pairs S.computedName (computedName single) (computedName single') :=
  fun t => .andThen (pairs_bracedExpr h t) fun e e' he =>
    .give (congrArg ComputedName.expr he) (by simp [ComputedName.children])

/-- A name that has been captured is the same in both runs. -/
theorem agree_literalName (t : Stage) : S.Agree False (S.Fresh .behind) literalName literalName
    S.computedName fun _ => S.Near t :=
  .then (agree_capturedName 0) fun _ => .settle (.give rfl (by simp [ComputedName.children]))

theorem pairs_computedKind (h : S.Pairs S.expr single single') :
    S.Pairs S.kind.option (computedKind single) (computedKind single') := by
  refine fun t => agree_ifEat S.core_kept ?_ (agree_ifReads S.core_kept ?_ (agree_ifEat S.core_kept ?_ (agree_ifReads S.core_kept ?_ (agree_ifEat S.core_kept ?_
    (agree_ifEat S.core_kept ?_ (agree_ifEat S.core_kept ?_ (agree_ifReads S.core_kept ?_ (agree_ifEat S.core_kept ?_ (agree_ifReads S.core_kept ?_
      (agree_ifEat S.core_kept ?_ .absent))))))))))
  · exact .andThen (pairs_enclosedExpr h t) fun e e' he => agree_someForm (congrArg ExprKind.compDocument he) (by simp)
  · refine .seq agree_start fun o o' ho => .then (agree_capturedQualifiedName 0) fun name => ?_
    refine .settle (t := t) (.then (pairs_elementName ho name t) fun name => ?_)
    refine .andThen (pairs_optionalExpr h t) fun content content' hc => ?_
    exact agree_someForm (congrArg (ExprKind.compElement (.literal name)) (option_map_of_like hc)) (by simp)
  · refine .andThen (pairs_computedName h t) fun name name' hn => ?_
    refine .bind (pairs_optionalExpr h t) fun content content' hc => ?_
    exact agree_someForm (congrArg₂ ExprKind.compElement hn (option_map_of_like hc)) (by simp)
  · refine .seq agree_start fun o o' ho => .then (agree_capturedQualifiedName 0) fun name => ?_
    refine .settle (t := t) (.then (pairs_plainName ho name t) fun name => ?_)
    refine .andThen (pairs_optionalExpr h t) fun content content' hc => ?_
    exact agree_someForm (congrArg (ExprKind.compAttribute (.literal name)) (option_map_of_like hc)) (by simp)
  · refine .andThen (pairs_computedName h t) fun name name' hn => ?_
    refine .bind (pairs_optionalExpr h t) fun content content' hc => ?_
    exact agree_someForm (congrArg₂ ExprKind.compAttribute hn (option_map_of_like hc)) (by simp)
  · exact .andThen (pairs_enclosedExpr h t) fun e e' he => agree_someForm (congrArg ExprKind.compText he) (by simp)
  · exact .andThen (pairs_enclosedExpr h t) fun e e' he => agree_someForm (congrArg ExprKind.compComment he) (by simp)
  · refine .andThen (agree_literalName t) fun target target' ht => ?_
    refine .bind (pairs_optionalExpr h t) fun content content' hc => ?_
    exact agree_someForm (congrArg₂ ExprKind.compPi ht (option_map_of_like hc)) (by simp)
  · refine .andThen (pairs_computedName h t) fun target target' ht => ?_
    refine .bind (pairs_optionalExpr h t) fun content content' hc => ?_
    exact agree_someForm (congrArg₂ ExprKind.compPi ht (option_map_of_like hc)) (by simp)
  · refine .andThen (agree_literalName t) fun name name' hn => ?_
    refine .bind (pairs_enclosedExpr h t) fun uri uri' hu => ?_
    exact agree_someForm (congrArg₂ ExprKind.compNamespace hn hu) (by simp)
  · refine .andThen (pairs_computedName h t) fun name name' hn => ?_
    refine .bind (pairs_enclosedExpr h t) fun uri uri' hu => ?_
    exact agree_someForm (congrArg₂ ExprKind.compNamespace hn hu) (by simp)

theorem pairs_computedConstructor (h : S.Pairs S.expr single single') :
    S.Pairs S.expr.option (computedConstructor single) (computedConstructor single') := by
  refine fun t => .seq (pairs_nextOffset t) fun o o' ho => .andThen (pairs_computedKind h t) ?_
  rintro _ _ (hk | _)
  · exact .found (agree_node hk ho (by simp))
  · exact .give .none (by simp)

/-! ### Steps -/

theorem pairs_nameTestNamespace (axis : Axis) :
    S.Pairs .plain (nameTestNamespace axis) (nameTestNamespace axis) :=
  fun t => .ite (fun _ => .plain _) fun _ => pairs_consult _ (fun _ _ h => h.elementNamespace?) t

theorem pairs_nodeTest (axis : Axis) : S.Pairs .plain (nodeTest axis) (nodeTest axis) := by
  refine fun t => .then (pairs_kindTest t) ?_
  rintro (_ | test)
  · refine .then (pairs_nameTestNamespace axis t) fun default => .then (pairs_nameTest default t) ?_
    rintro (_ | test)
    · exact agree_unexpected _
    · exact .plain _
  · exact .plain _

theorem pairs_stepTest :
    S.Pairs (.option (.prod .plain (.prod .plain S.offset))) stepTest stepTest := by
  refine fun t => .seq (pairs_nextOffset t) fun begin begin' hb => ?_
  refine agree_ifReads S.core_kept ?_ (agree_ifReads S.core_kept ?_ (agree_ifReads S.core_kept ?_ (.then (pairs_kindTest t) ?_)))
  · refine .seq agree_start fun o o' ho => .then (agree_capturedName 0) fun name => .settle (t := t) ?_
    cases Axis.ofName? name with
    | none => exact agree_fatal (eq_of_offset ho) _ _
    | some axis => exact .then (pairs_nodeTest axis t) fun _ => .give (.some ⟨rfl, rfl, ho⟩) (by simp)
  · refine .seq agree_start fun o o' ho => .settle (t := t) ?_
    exact .then (pairs_nodeTest .attribute t) fun _ => .give (.some ⟨rfl, rfl, ho⟩) (by simp)
  · exact .seq agree_start fun o o' ho => .settle (.give (.some ⟨rfl, rfl, ho⟩) (by simp))
  · rintro (_ | test)
    · refine .then (pairs_nameTestNamespace .child t) fun default => .then (pairs_nameTest default t) ?_
      rintro (_ | test)
      · exact .absent
      · exact .give (.some ⟨rfl, rfl, hb⟩) (by simp)
    · exact .give (.some ⟨rfl, rfl, hb⟩) (by simp)

theorem pairs_descendantStep (ho : S.offset.like o o') :
    S.Pairs S.expr (descendantStep o) (descendantStep o') := fun _ => agree_node rfl ho (by simp)

theorem pairs_filtered {base base' : Expr} {ps ps' : List Expr} (hb : S.expr.like base base')
    (hp : S.expr.list.like ps ps') : S.PairsOn (S.expr.owes base ∨ S.expr.list.owes ps) S.expr
      (filtered base ps) (filtered base' ps') := by
  intro t
  cases hp with
  | nil => exact .give hb (by simp)
  | cons ha has =>
    exact agree_node (congrArg₂ ExprKind.filter hb (map_of_like (.cons ha has))) (like_offset hb) (by simp)

/-! ### Primary expressions -/

theorem pairs_literal? : S.Pairs S.expr.option literal? literal? := by
  refine fun t => agree_ifReads S.core_kept ?_ (agree_ifReads S.core_kept ?_ .absent)
  · refine .seq agree_start fun o o' ho => .then (agree_capturedNumber? 0) fun value => ?_
    exact .settle (t := t) (.found (agree_node rfl ho (by simp)))
  · refine .seq agree_start fun o o' ho => .then (agree_capturedString 0) fun value => ?_
    exact .settle (t := t) (.found (agree_node rfl ho (by simp)))

theorem agree_namedFunctionRef {t : Stage} : S.Agree False (S.Fresh .behind) namedFunctionRef
    namedFunctionRef S.expr fun _ => S.Near t := by
  refine .seq agree_start fun o o' ho => .then (agree_capturedQualifiedName 0) fun name => ?_
  refine .then (agree_capturedNumber? 1) fun arity => .settle (t := t) ?_
  have hfatal : S.Agree False (S.Near t)
      (fatal .malformed o "function arity must be a non-negative integer" : Parser Expr)
      (fatal .malformed o' "function arity must be a non-negative integer") S.expr fun _ => S.Near t :=
    agree_fatal (eq_of_offset ho) _ _
  cases arity with
  | none => exact hfatal
  | some value =>
    cases value with
    | integer arity => exact .then (pairs_functionName ho name t) fun _ => agree_node rfl ho (by simp)
    | _ => exact hfatal

theorem pairs_predicate (h : S.Pairs S.expr single single') :
    S.Pairs S.expr (predicate single) (predicate single') := by
  refine fun t => .andThen (pairs_expr h t) fun e e' he => ?_
  exact .then (agree_expect S.core_kept) fun _ => .give he Iff.rfl

theorem pairs_predicates (h : S.Pairs S.expr single single') :
    S.Pairs S.expr.list (predicates single) (predicates single') :=
  fun _ => agree_many (agree_whenEats S.core_kept (pairs_predicate h))

theorem pairs_axisStep (h : S.Pairs S.expr single single') :
    S.Pairs S.expr.option (axisStep single) (axisStep single') := by
  refine fun t => .seq (pairs_stepTest t) ?_
  rintro _ _ (@⟨⟨axis, test, o⟩, ⟨_, _, o'⟩, ⟨rfl, rfl, ho⟩⟩ | _)
  · refine .then (pairs_goto rfl t) fun _ => .andThen (pairs_predicates h t) fun ps ps' hp => ?_
    exact .found (agree_node (congrArg (ExprKind.step axis test) (map_of_like hp)) ho (by simp))
  · exact .absent

theorem pairs_argument (h : S.Pairs S.expr single single') :
    S.Pairs S.expr (argument single) (argument single') :=
  fun t => agree_ifReads S.core_kept (.seq agree_start fun o o' ho => .settle (t := t) (agree_node rfl ho (by simp))) (h t)

theorem pairs_argumentList (h : S.Pairs S.expr single single') :
    S.Pairs S.expr.list (argumentList single) (argumentList single') := by
  refine fun t => agree_ifEat S.core_kept (.give .nil (by simp)) ?_
  refine .andThen (agree_separatedBy S.core_kept (pairs_argument h)) fun args args' ha => ?_
  exact .then (agree_expect S.core_kept) fun _ => .give ha Iff.rfl

theorem pairs_applicationStep (h : S.Pairs S.expr single single') {state state' : Expr × List Expr}
    (hs : (S.expr.prod S.expr.list).like state state') :
    S.PairsOn ((S.expr.prod S.expr.list).owes state) (.sum (.prod S.expr S.expr.list) S.expr)
      (applicationStep single state) (applicationStep single' state') := by
  obtain ⟨base, ps⟩ := state
  obtain ⟨base', ps'⟩ := state'
  obtain ⟨hb, hp⟩ := hs
  have hfiltered (t : Stage) : S.Agree ((S.expr.prod S.expr.list).owes (base, ps)) (S.Near t)
      (filtered base ps) (filtered base' ps') S.expr fun _ => S.Near t := pairs_filtered hb hp t
  refine fun t => agree_ifEat S.core_kept ?_ (agree_ifEat S.core_kept ?_ (.andThen (hfiltered t) fun e e' he => .give he Iff.rfl))
  · refine .bind (pairs_predicate h t) fun p p' hpredicate => ?_
    exact .give ⟨hb, like_concat hp hpredicate⟩ (by simp [or_assoc])
  · refine .andThen (hfiltered t) fun function function' hf => ?_
    refine .bind (pairs_argumentList h t) fun args args' ha => ?_
    refine .andThen (agree_node (congrArg₂ ExprKind.dynamicCall hf (map_of_like ha)) (like_offset hf) (by simp)) ?_
    exact fun call call' hc => .give ⟨hc, .nil⟩ (by simp)

theorem pairs_applications (h : S.Pairs S.expr single single') {base base' : Expr}
    (hb : S.expr.like base base') :
    S.PairsOn (S.expr.owes base) S.expr (applications single base) (applications single' base') :=
  fun t => .shows (agree_iterate (fun _ _ hs => pairs_applicationStep h hs t) ⟨hb, .nil⟩) (by simp)

/-- What stands in parentheses begins behind a match. -/
theorem agree_parenthesized (h : S.Pairs S.expr single single') {t : Stage} :
    S.Agree False (S.Fresh .behind) (parenthesized single) (parenthesized single') S.expr
      fun _ => S.Near t := by
  refine .seq agree_start fun o o' ho => .settle (t := t) (agree_ifEat S.core_kept (agree_node rfl ho (by simp)) ?_)
  refine .andThen (pairs_expr h t) fun e e' he => ?_
  exact .then (agree_expect S.core_kept) fun _ => .give he Iff.rfl

theorem pairs_functionCall? (h : S.Pairs S.expr single single') :
    S.Pairs S.expr.option (functionCall? single) (functionCall? single') := by
  refine fun t => .then (agree_peek rfl) ?_
  rintro (_ | _)
  · exact .absent
  refine .then (agree_capturedQualifiedName 0) fun name => .ite (fun _ => ?_) fun _ => .unsee ?_
  · exact .unsee .absent
  refine .then (fresh_expect S.core_kept) fun _ => .seq agree_start fun o o' ho => ?_
  refine .settle (t := t) (.then (pairs_functionName ho name t) fun name => ?_)
  refine .andThen (pairs_argumentList h t) fun args args' ha => ?_
  exact .found (agree_node (congrArg (ExprKind.functionCall name) (map_of_like ha)) ho (by simp))

theorem pairs_primary (h : S.Pairs S.expr single single') :
    S.Pairs S.expr.option (primary single) (primary single') := by
  intro t
  refine .andThen (pairs_literal? t) ?_
  rintro _ _ (he | _)
  · exact .give (.some he) (by simp)
  refine .shows (K := False) (agree_ifPeek rfl (.pre ?_ fun _ _ h => h.1) (agree_ifReads S.core_kept
    (.found (agree_parenthesized h)) (agree_unlessPeek rfl (agree_ifReads S.core_kept ?_ ?rest) ?rest))) (by simp)
  · refine .then (pairs_variableName _) fun name => .seq agree_start_seen fun o o' ho => ?_
    exact .post (.found (agree_node rfl ho (by simp))) fun _ _ _ h => h.unseen
  · exact .seq agree_start fun o o' ho => .settle (t := t) (.found (agree_node rfl ho (by simp)))
  refine .andThen (pairs_directConstructor h t) ?_
  rintro _ _ (he | _)
  · exact .give (.some he) (by simp)
  refine .shows (K := False) (.andThen (pairs_computedConstructor h t) ?_) (by simp)
  rintro _ _ (he | _)
  · exact .give (.some he) (by simp)
  refine .shows (K := False) (agree_ifReads S.core_kept ?_ (agree_ifReads S.core_kept ?_ (agree_ifPeek rfl ?_ (agree_ifPeek rfl ?_
    (agree_ifReads S.core_kept ?_ (pairs_functionCall? h t)))))) (by simp)
  · refine .seq agree_start fun o o' ho => .settle (t := t) ?_
    refine .andThen (pairs_bracedExpr h t) fun e e' he => ?_
    exact .found (agree_node (congrArg ExprKind.ordered he) ho (by simp))
  · refine .seq agree_start fun o o' ho => .settle (t := t) ?_
    refine .andThen (pairs_bracedExpr h t) fun e e' he => ?_
    exact .found (agree_node (congrArg ExprKind.unordered he) ho (by simp))
  · exact .unsee (.found (pairs_inlineFunction h t))
  · exact .unsee (.found (pairs_inlineFunction h t))
  · exact .found (agree_namedFunctionRef)

/-! ### Paths -/

theorem pairs_stepExpr (h : S.Pairs S.expr single single') :
    S.Pairs S.expr.option (stepExpr single) (stepExpr single') := by
  refine fun t => .andThen (pairs_primary h t) ?_
  rintro _ _ (hb | _)
  · exact .found ((pairs_applications h hb t).shows (by simp))
  · exact (pairs_axisStep h t).shows (by simp)

theorem pairs_requiredStep (h : S.Pairs S.expr single single') :
    S.Pairs S.expr (requiredStep single) (requiredStep single') := by
  refine fun t => .andThen (pairs_stepExpr h t) ?_
  rintro _ _ (hs | _)
  · exact .give hs (by simp)
  · exact agree_unexpected _

theorem pairs_furtherSteps (h : S.Pairs S.expr single single') :
    S.Pairs S.expr.list.option (furtherSteps single) (furtherSteps single') := by
  refine fun t => agree_ifReads S.core_kept ?_ (agree_ifEat S.core_kept ?_ .absent)
  · refine .seq agree_start fun o o' ho => .settle (t := t) ?_
    refine .andThen (pairs_descendantStep ho t) fun descend descend' hd => ?_
    refine .bind (pairs_requiredStep h t) fun step step' hs => ?_
    exact .give (.some (.cons hd (like_singleton hs))) (by simp)
  · exact .andThen (pairs_requiredStep h t) fun step step' hs => .give (.some (like_singleton hs)) (by simp)

/-- Like forms are both steps or both none. -/
theorem isStep_of_like {k k' : ExprKind Expr} (h : S.kind.like k k') : k.isStep = k'.isStep := by
  have hmap (f : Nat → Nat) (k : ExprKind Expr) : (k.map (Expr.moved f) f).isStep = k.isStep := by
    cases k <;> rfl
  rw [← hmap S.left k, ← hmap S.right k', show k.map _ _ = _ from h]

theorem isStep_iff {k : ExprKind Expr} : k.isStep ↔ ∃ axis test ps, k = .step axis test ps := by
  constructor
  · intro h
    cases k with
    | step axis test ps => exact ⟨axis, test, ps, rfl⟩
    | _ => cases h
  · rintro ⟨axis, test, ps, rfl⟩
    rfl

theorem pairs_relativePath (h : S.Pairs S.expr single single') (origin : PathRoot)
    {first first' : List Expr} (hf : S.expr.list.like first first') (ho : S.offset.like o o') :
    S.PairsOn (S.expr.list.owes first) S.expr (relativePath single origin first o)
      (relativePath single' origin first' o') := by
  refine fun t => .bind (agree_many (pairs_furtherSteps h t)) fun more more' hm => ?_
  refine .shows (K := S.expr.list.owes (first ++ more.flatten)) ?_ (by simp)
  have hsteps := like_append hf (like_flatten hm)
  have hpath : S.Agree (S.expr.list.owes (first ++ more.flatten)) (S.Near t)
      (node (.path origin (first ++ more.flatten)) o) (node (.path origin (first' ++ more'.flatten)) o')
      S.expr fun _ => S.Near t := agree_node (congrArg (ExprKind.path origin) (map_of_like hsteps)) ho (by simp)
  generalize first ++ more.flatten = steps at hsteps hpath ⊢
  generalize first' ++ more'.flatten = steps' at hsteps hpath ⊢
  cases origin with
  | relative =>
    cases hsteps with
    | nil => exact hpath
    | @cons step step' _ _ hs hrest =>
      cases hrest with
      | cons => exact hpath
      | nil =>
        -- A step alone is a path, and both runs see one or neither does.
        have hstep := isStep_of_like (like_kind hs)
        dsimp only
        split
        · rename_i hkind
          rw [hkind] at hstep
          split
          · exact hpath
          · rename_i hkind'
            obtain ⟨axis, test, ps, heq⟩ := isStep_iff.1 hstep.symm
            exact (hkind' axis test ps heq).elim
        · rename_i hkind
          split
          · rename_i hkind'
            rw [hkind'] at hstep
            obtain ⟨axis, test, ps, heq⟩ := isStep_iff.1 hstep
            exact (hkind axis test ps heq).elim
          · exact .give hs (by simp)
  | _ => exact hpath

theorem pairs_pathExpr (h : S.Pairs S.expr single single') :
    S.Pairs S.expr (pathExpr single) (pathExpr single') := by
  refine fun t => agree_ifReads S.core_kept ?_ (agree_ifReads S.core_kept ?_ ?_)
  · refine .seq agree_start fun o o' ho => .settle (t := t) ?_
    refine .andThen (pairs_descendantStep ho t) fun descend descend' hd => ?_
    refine .bind (pairs_requiredStep h t) fun step step' hs => ?_
    exact (pairs_relativePath h .rootDescendants (.cons hd (like_singleton hs)) ho t).shows (by simp)
  · refine .seq agree_start fun o o' ho => .settle (t := t) (.andThen (pairs_stepExpr h t) ?_)
    rintro _ _ (hs | _)
    · exact (pairs_relativePath h .root (like_singleton hs) ho t).shows (by simp)
    · exact .then (pairs_goto rfl t) fun _ => agree_node rfl ho (by simp)
  · refine .andThen (pairs_requiredStep h t) fun step step' hs => ?_
    exact (pairs_relativePath h .relative (like_singleton hs) (like_offset hs) t).shows (by simp)

end XQuerySyntax.Grammar
