import XQuerySyntax.Proofs.Comparison.Type

/-! Queries made of clauses in two runs. A variable for a score shows in its clause that full text has
been used. -/

namespace XQuerySyntax

open Comparison

/-! ### Clauses at other places -/

/-- A clause binds the same variables wherever it stands. -/
theorem Clause.boundNames_map {ε ε' : Type} {h : ε → ε'} {f : Nat → Nat} (c : Clause ε) :
    (c.map h f).boundNames = c.boundNames := by
  cases c with
  | forEach bindings => exact List.flatMap_map ..
  | letBe bindings => exact List.map_map ..
  | window kind name typeDecl source start finish =>
    cases finish <;> rfl
  | _ => rfl

theorem Clause.splitCondition_map {ε ε' : Type} {h : ε → ε'} {f : Nat → Nat}
    (clauses : List (Clause ε)) : Clause.splitCondition (clauses.map (Clause.map h f)) =
      ((Clause.splitCondition clauses).1.map (Clause.map h f),
        (Clause.splitCondition clauses).2.map h) := by
  unfold Clause.splitCondition
  rw [List.getLast?_map]
  cases clauses.getLast? with
  | none => rfl
  | some c =>
    cases c with
    | filter condition => rw [List.map_dropLast]; rfl
    | _ => rfl

namespace Comparison

variable {S : Comparison}

@[simp]
theorem owes_forEach (bindings : List (ForBinding Expr)) :
    S.clause.owes (.forEach bindings) ↔ S.forBinding.list.owes bindings := by
  simp only [owes_clause, Clause.hasScore, Clause.children, Likeness.list, owes_forBinding, and_or_left,
    exists_or, List.any_eq_true, List.mem_flatMap, List.mem_singleton]
  refine or_congr ⟨?_, ?_⟩ ⟨?_, ?_⟩
  · rintro ⟨hd, b, hb, hs⟩
    exact ⟨b, hb, hd, hs⟩
  · rintro ⟨b, hb, hd, hs⟩
    exact ⟨hd, b, hb, hs⟩
  · rintro ⟨_, ⟨b, hb, rfl⟩, ho⟩
    exact ⟨b, hb, ho⟩
  · rintro ⟨b, hb, ho⟩
    exact ⟨_, ⟨b, hb, rfl⟩, ho⟩

@[simp]
theorem owes_letBe (bindings : List (LetBinding Expr)) :
    S.clause.owes (.letBe bindings) ↔ S.letBinding.list.owes bindings := by
  simp only [owes_clause, Clause.hasScore, Clause.children, Likeness.list, owes_letBinding, and_or_left,
    exists_or, List.any_eq_true, List.mem_flatMap, List.mem_singleton]
  refine or_congr ⟨?_, ?_⟩ ⟨?_, ?_⟩
  · rintro ⟨hd, b, hb, hs⟩
    exact ⟨b, hb, hd, hs⟩
  · rintro ⟨b, hb, hd, hs⟩
    exact ⟨hd, b, hb, hs⟩
  · rintro ⟨_, ⟨b, hb, rfl⟩, ho⟩
    exact ⟨b, hb, ho⟩
  · rintro ⟨b, hb, ho⟩
    exact ⟨_, ⟨b, hb, rfl⟩, ho⟩

@[simp]
theorem owes_window (kind : WindowKind) (name : QName) (typeDecl : Option SequenceType) (source : Expr)
    (start : WindowCondition Expr) (finish : Option (WindowCondition Expr)) :
    S.clause.owes (.window kind name typeDecl source start finish) ↔
      S.expr.owes source ∨ S.windowCondition.owes start ∨ S.windowCondition.option.owes finish := by
  cases finish <;> simp [owes_clause, Clause.hasScore, Clause.children, WindowCondition.children]

@[simp]
theorem owes_count (name : QName) : S.clause.owes (.count name) ↔ False := by
  simp [owes_clause, Clause.hasScore, Clause.children]

@[simp]
theorem owes_filter (condition : Expr) : S.clause.owes (.filter condition) ↔ S.expr.owes condition := by
  simp [owes_clause, Clause.hasScore, Clause.children]

/-- Like window conditions name the same variables. -/
theorem names_of_like {w w' : WindowCondition Expr} (h : S.windowCondition.like w w') :
    w.names = w'.names := (WindowCondition.mk.inj h).2.1

theorem option_names_of_like {found found' : Option (WindowCondition Expr)}
    (h : S.windowCondition.option.like found found') :
    found.toList.flatMap (·.names.names) = found'.toList.flatMap (·.names.names) := by
  cases h with
  | none => rfl
  | some hw => exact congrArg (fun names : WindowVars => names.names ++ []) (names_of_like hw)

/-- Like clauses bind the same variables. -/
theorem boundNames_of_like {clauses clauses' : List (Clause Expr)} (h : S.clause.list.like clauses clauses') :
    clauses.flatMap Clause.boundNames = clauses'.flatMap Clause.boundNames := by
  refine same_of_like (fun f clauses => ?_) h
  rw [List.flatMap_map]
  exact List.flatMap_congr fun c _ => c.boundNames_map

theorem splitCondition_like {clauses clauses' : List (Clause Expr)}
    (h : S.clause.list.like clauses clauses') :
    (S.clause.list.prod S.expr.option).like (Clause.splitCondition clauses)
      (Clause.splitCondition clauses') := by
  have hsplit := congrArg Clause.splitCondition (map_of_like h)
  rw [Clause.splitCondition_map, Clause.splitCondition_map] at hsplit
  exact ⟨like_of_map (congrArg Prod.fst hsplit), option_like_of_map (congrArg Prod.snd hsplit)⟩

/-- A condition split off shows what it showed as a clause. -/
theorem splitCondition_owes (clauses : List (Clause Expr)) :
    (S.clause.list.prod S.expr.option).owes (Clause.splitCondition clauses) ↔
      S.clause.list.owes clauses := by
  unfold Clause.splitCondition
  cases List.eq_nil_or_concat' clauses with
  | inl hnil => simp [hnil]
  | inr hlast =>
    obtain ⟨before, last, rfl⟩ := hlast
    cases last <;> simp

/-- A query shows what its parts show. -/
@[simp]
theorem owes_flwor (q : Flwor Expr) : S.kind.owes (.flwor q) ↔
    S.clause.list.owes q.clauses ∨ S.expr.option.owes q.condition ∨
      S.groupingSpec.list.owes q.groupBy ∨ S.clause.list.owes q.postGroup ∨
      S.orderSpec.list.owes q.orderBy ∨ S.expr.owes q.result := by
  have hscore : S.Drops (ExprKind.flwor q).belongsTo ↔
      (∃ c ∈ q.clauses, S.Drops .fullText ∧ c.hasScore) ∨
        ∃ c ∈ q.postGroup, S.Drops .fullText ∧ c.hasScore := by
    by_cases hd : S.Drops .fullText
    · simp only [hd, true_and, ExprKind.belongsTo]
      split
      · simp_all
      · simp_all
    · simp only [hd, false_and, and_false, exists_false, or_self, iff_false, ExprKind.belongsTo]
      split
      · exact hd
      · exact S.core_kept
  have hlist (clauses : List (Clause Expr)) : S.clause.list.owes clauses ↔
      (∃ c ∈ clauses, S.Drops .fullText ∧ c.hasScore) ∨
        S.expr.list.owes (clauses.flatMap Clause.children) := by
    rw [owes_flatMap, ← exists_or]
    simp only [← and_or_left]
    rfl
  have hgroup : S.expr.list.owes (q.groupBy.flatMap GroupingSpec.children) ↔
      S.groupingSpec.list.owes q.groupBy := owes_parts (fun _ => by simp [GroupingSpec.children]) _
  have horder : S.expr.list.owes (q.orderBy.flatMap fun s => [s.key]) ↔
      S.orderSpec.list.owes q.orderBy := owes_parts (fun _ => by simp) _
  rw [owes_kind, hscore, hlist, hlist]
  simp only [ExprKind.children, Flwor.children, owes_append, owes_toList, owes_cons, owes_nil, or_false,
    hgroup, horder]
  exact iff_of_eq (by ac_rfl)

end Comparison

namespace Grammar

open XQuerySyntax.Parser

variable {S : Comparison} {o o' : Nat} {single single' : Parser Expr}

theorem pairs_positionalVariable (name : QName) :
    S.Pairs .plain (positionalVariable name) (positionalVariable name) := by
  refine fun t => .seq (pairs_nextOffset t) fun o o' ho => .then (pairs_variableName t) fun _ => ?_
  refine .ite (fun _ => ?_) fun _ => .plain _
  exact .then (pairs_record ho _ _ t) fun _ => .plain _

theorem pairs_forBinding (h : S.Pairs S.expr single single') :
    S.Pairs S.forBinding (forBinding single) (forBinding single') := by
  refine fun t => .seq (pairs_nextOffset t) fun o o' ho => .then (pairs_typedVariable t) fun v => ?_
  refine .then (agree_eat S.core_kept) fun allowingEmpty => ?_
  refine .then (agree_whenPlain S.core_kept (pairs_positionalVariable v.1)) fun positional => ?_
  refine .bind (uses_whenPlain (x := .fullText) rfl fun _ => pairs_variableName) ?_
  rintro score _ rfl
  refine .then (agree_expect S.core_kept) fun _ => .bind (h t) fun source source' hs => ?_
  exact .give (congrArg₂ (ForBinding.mk v.1 v.2 allowingEmpty positional score) hs ho) (by simp)

theorem pairs_letBinding (h : S.Pairs S.expr single single') (score : Bool) :
    S.PairsOn (S.Drops .fullText ∧ score) S.letBinding (letBinding single score)
      (letBinding single' score) := by
  have hend (t : Stage) (o o' : Nat) (ho : S.offset.like o o') (v : QName × Option SequenceType) :
      S.Agree (S.Drops .fullText ∧ score) (S.Near t)
        (do
          expect Terminal.assign
          let value ← single
          return LetBinding.mk v.1 v.2 score value o)
        (do
          expect Terminal.assign
          let value ← single'
          return LetBinding.mk v.1 v.2 score value o') S.letBinding fun _ => S.Near t := by
    refine .then (agree_expect S.core_kept) fun _ => .bind (h t) fun value value' hv => ?_
    exact .give (congrArg₂ (LetBinding.mk v.1 v.2 score) hv ho) (by simp)
  refine fun t => .seq (pairs_nextOffset t) fun o o' ho => .ite (fun _ => ?_) fun _ => ?_
  · exact .then (.mapPlain (pairs_variableName t)) fun v => hend t o o' ho v
  · exact .then (pairs_typedVariable t) fun v => hend t o o' ho v

theorem pairs_letBindings (h : S.Pairs S.expr single single') (score : Bool) :
    S.PairsOn (S.Drops .fullText ∧ score) S.clause (letBindings single score)
      (letBindings single' score) := by
  have hrest (t : Stage) : S.Agree False (S.Near t) (letBinding single false)
      (letBinding single' false) S.letBinding fun _ => S.Near t :=
    (pairs_letBinding h false t).shows (by simp)
  refine fun t => .andThen (pairs_letBinding h score t) fun first first' hf => ?_
  refine .bind (agree_many (agree_whenEats S.core_kept hrest)) fun rest rest' hr => ?_
  exact .give (congrArg Clause.letBe (map_of_like (.cons hf hr))) (by simp [or_assoc])

theorem pairs_windowCondition (h : S.Pairs S.expr single single') (only : Bool) :
    S.Pairs S.windowCondition (windowCondition single only) (windowCondition single' only) := by
  have hend (t : Stage) (current : Option QName) : S.Agree False (S.Near t)
      (do
        let positional ← whenEats Terminal.windowAt variableName
        let previous ← whenEats Terminal.windowPrevious variableName
        let next ← whenEats Terminal.windowNext variableName
        expect Terminal.whenCondition
        let condition ← single
        return WindowCondition.mk only ⟨current, positional, previous, next⟩ condition)
      (do
        let positional ← whenEats Terminal.windowAt variableName
        let previous ← whenEats Terminal.windowPrevious variableName
        let next ← whenEats Terminal.windowNext variableName
        expect Terminal.whenCondition
        let condition ← single'
        return WindowCondition.mk only ⟨current, positional, previous, next⟩ condition)
      S.windowCondition fun _ => S.Near t := by
    refine .then (agree_whenPlain S.core_kept pairs_variableName) fun positional => ?_
    refine .then (agree_whenPlain S.core_kept pairs_variableName) fun previous => ?_
    refine .then (agree_whenPlain S.core_kept pairs_variableName) fun next => .then (agree_expect S.core_kept) fun _ => ?_
    refine .andThen (h t) fun condition condition' hc => ?_
    exact .give (congrArg (WindowCondition.mk only ⟨current, positional, previous, next⟩) hc) (by simp)
  refine fun t => agree_ifPeek rfl (.unsee ?_) ?_
  · exact .then (.mapPlain (pairs_variableName t)) (hend t)
  · exact .then (.plain none) (hend t)

theorem pairs_windowEnd (h : S.Pairs S.expr single single') (kind : WindowKind) :
    S.Pairs S.windowCondition.option (windowEnd single kind) (windowEnd single' kind) := by
  refine fun t => agree_ifEat S.core_kept ?_ (agree_ifEat S.core_kept ?_ (.ite (fun _ => ?_) fun _ => .absent))
  · exact .found (pairs_windowCondition h true t)
  · exact .found (pairs_windowCondition h false t)
  · exact .then (Q := fun _ => S.Near t) (agree_unexpected _) fun _ => .absent

theorem pairs_windowClause (h : S.Pairs S.expr single single') (kind : WindowKind) :
    S.Pairs S.clause (windowClause single kind) (windowClause single' kind) := by
  refine fun t => .seq (pairs_nextOffset t) fun o o' ho => .then (pairs_typedVariable t) fun v => ?_
  refine .then (agree_expect S.core_kept) fun _ => .bind (h t) fun source source' hs => .then (agree_expect S.core_kept) fun _ => ?_
  refine .bind (pairs_windowCondition h false t) fun first first' hf => ?_
  refine .bind (pairs_windowEnd h kind t) fun last last' hl => ?_
  rw [names_of_like hf, option_names_of_like hl]
  have hlike : S.clause.like (.window kind v.1 v.2 source first last)
      (.window kind v.1 v.2 source' first' last') := by
    change Clause.window _ _ _ _ _ _ = Clause.window _ _ _ _ _ _
    exact congr (congrArg₂ (Clause.window kind v.1 v.2) hs hf) (option_map_of_like hl)
  exact .then (agree_forIn (fun n => pairs_record ho _ _ t) _) fun _ => .give hlike (by simp [or_assoc])

theorem pairs_initialClause (h : S.Pairs S.expr single single') :
    S.Pairs S.clause.option (initialClause single) (initialClause single') := by
  refine fun t => agree_ifEat S.core_kept ?_ (agree_ifEat S.core_kept ?_ (agree_ifEat S.core_kept ?_ (uses_ifEat (x := .fullText) rfl ?_
    (agree_ifEat S.core_kept ?_ .absent))))
  · exact .found (pairs_windowClause h .tumbling t)
  · exact .found (pairs_windowClause h .sliding t)
  · refine .bind (agree_separatedBy S.core_kept (pairs_forBinding h)) fun bindings bindings' hb => ?_
    exact .give (.some (congrArg Clause.forEach (map_of_like hb))) (by simp)
  · exact .found ((pairs_letBindings h true t).shows (by simp))
  · exact .found ((pairs_letBindings h false t).shows (by simp))

theorem pairs_clause (h : S.Pairs S.expr single single') :
    S.Pairs S.clause.option (clause single) (clause single') := by
  refine fun t => .andThen (pairs_initialClause h t) ?_
  rintro _ _ (hc | _)
  · exact .give (.some hc) (by simp)
  · refine .shows (K := False) (agree_ifEat S.core_kept ?_ (agree_ifEat S.core_kept ?_ .absent)) (by simp)
    · exact .andThen (h t) fun e e' he => .give (.some (congrArg Clause.filter he)) (by simp)
    · exact .then (pairs_variableName t) fun _ => .give (.some rfl) (by simp)

theorem pairs_collation : S.Pairs .plain collation collation :=
  fun _ => agree_whenCaptures S.core_kept fun captures => captures.string 0

/-- What may be there is there in both runs. -/
theorem isNone_of_like {α : Type} {L : S.Likeness α} {found found' : Option α}
    (h : L.option.like found found') : found'.isNone = found.isNone := by
  cases h <;> rfl

theorem pairs_groupingSpec (h : S.Pairs S.expr single single') (bound : List ExpandedName) :
    S.Pairs S.groupingSpec (groupingSpec single bound) (groupingSpec single' bound) := by
  refine fun t => .seq (pairs_nextOffset t) fun o o' ho => .then (pairs_variableName t) fun name => ?_
  refine .andThen (agree_whenEats S.core_kept h) fun value value' hv => ?_
  rw [isNone_of_like hv]
  refine agree_recordIf ho (.then (pairs_collation t) fun collation => ?_)
  exact .give (congrArg (GroupingSpec.mk name · collation) (option_map_of_like hv)) (by simp)

theorem pairs_orderSpec (h : S.Pairs S.expr single single') :
    S.Pairs S.orderSpec (orderSpec single) (orderSpec single') := by
  refine fun t => .andThen (h t) fun key key' hk => .then (agree_eatFirst S.core_kept (by decide)) ?_
  refine fun direction => .then (agree_eatFirst S.core_kept (by decide)) fun empty => ?_
  refine .then (pairs_collation t) fun collation => ?_
  exact .give (congrArg (OrderSpec.mk · (direction.getD false) empty collation) hk) (by simp)

theorem pairs_ordering (h : S.Pairs S.expr single single') :
    S.Pairs (.prod .plain S.orderSpec.list) (ordering single) (ordering single') := by
  refine fun t => .then (agree_eatFirst S.core_kept (by decide)) ?_
  rintro (_ | stable)
  · exact .give ⟨rfl, .nil⟩ (by simp)
  · exact .andThen (agree_separatedBy S.core_kept (pairs_orderSpec h)) fun keys keys' hk => .give ⟨rfl, hk⟩ (by simp)

theorem pairs_postGroupClause (h : S.Pairs S.expr single single') :
    S.Pairs S.clause.option (postGroupClause single) (postGroupClause single') := by
  refine fun t => .andThen (pairs_clause h t) ?_
  rintro _ _ (hc | _)
  · exact .give (.some hc) (by simp)
  · refine .shows (K := False) (agree_ifReads S.core_kept ?_ .absent) (by simp)
    refine .seq agree_start fun o o' ho => .settle (t := t) ?_
    exact .then (Q := fun _ => S.Near t) (agree_fatal (eq_of_offset ho) _ _) fun _ => .absent

theorem pairs_flwor (h : S.Pairs S.expr single single') :
    S.Pairs S.expr.option (flwor single) (flwor single') := by
  refine fun t => .seq (pairs_nextOffset t) fun o o' ho => .andThen (pairs_initialClause h t) ?_
  rintro _ _ (@⟨first, first', hf⟩ | _)
  rotate_left
  · exact .give .none (by simp)
  refine .bind (agree_many (pairs_clause h t)) fun more more' hm => ?_
  have hsplit := splitCondition_like (.cons hf hm)
  have howes := splitCondition_owes (S := S) (first :: more)
  generalize Clause.splitCondition (first :: more) = split at hsplit howes
  generalize Clause.splitCondition (first' :: more') = split' at hsplit
  obtain ⟨clauses, condition⟩ := split
  obtain ⟨clauses', condition'⟩ := split'
  obtain ⟨hclauses, hcondition⟩ := hsplit
  refine .shows (K := S.clause.list.owes clauses ∨ S.expr.option.owes condition) ?_
    (howes.trans (by simp))
  have hend (groupBy groupBy' : List (GroupingSpec Expr)) (postGroup postGroup' : List (Clause Expr))
      (hg : S.groupingSpec.list.like groupBy groupBy') (hp : S.clause.list.like postGroup postGroup') :
      S.Agree (((S.clause.list.owes clauses ∨ S.expr.option.owes condition) ∨
          S.groupingSpec.list.owes groupBy) ∨ S.clause.list.owes postGroup) (S.Near t)
        (do
          let order ← ordering single
          expect Terminal.returnClause
          let result ← single
          return some (← node
            (.flwor ⟨clauses, condition, groupBy, postGroup, order.1, order.2, result⟩) o))
        (do
          let order ← ordering single'
          expect Terminal.returnClause
          let result ← single'
          return some (← node
            (.flwor ⟨clauses', condition', groupBy', postGroup', order.1, order.2, result⟩) o'))
        S.expr.option fun _ => S.Near t := by
    refine .bind (pairs_ordering h t) ?_
    rintro ⟨stable, orderBy⟩ ⟨_, orderBy'⟩ ⟨rfl, hkeys⟩
    refine .then (agree_expect S.core_kept) fun _ => .bind (h t) fun result result' hr => .found ?_
    refine agree_node ?_ ho (by simp [or_assoc])
    change ExprKind.flwor (Flwor.mk _ _ _ _ _ _ _) = ExprKind.flwor (Flwor.mk _ _ _ _ _ _ _)
    rw [map_of_like hclauses, option_map_of_like hcondition, map_of_like hg, map_of_like hp,
      map_of_like hkeys, show Expr.moved S.left result = _ from hr]
  refine .then (agree_eat S.core_kept) ?_
  rintro (_ | _)
  · exact (hend [] [] [] [] .nil .nil).shows (by simp)
  · rw [boundNames_of_like hclauses]
    refine .bind (agree_separatedBy S.core_kept (pairs_groupingSpec h _)) fun groupBy groupBy' hg => ?_
    refine .bind (agree_many (pairs_postGroupClause h t)) fun postGroup postGroup' hp => ?_
    exact hend groupBy groupBy' postGroup postGroup' hg hp

end Grammar

end XQuerySyntax
