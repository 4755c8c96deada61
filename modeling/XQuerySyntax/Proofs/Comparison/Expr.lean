import XQuerySyntax.Proofs.Comparison.FullText
import XQuerySyntax.Proofs.Comparison.Path

/-! Operators and single expressions in two runs. The knot is tied by induction on the rounds of the
first run. -/

namespace XQuerySyntax.Grammar

open XQuerySyntax.Parser Comparison

attribute [local simp] owes_kind ExprKind.belongsTo ExprKind.children ComputedName.children or_assoc

variable {S : Comparison} {o o' : Nat}

/-! ### Operators -/

section

variable {operand operand' : Parser Expr}

theorem pairs_chainStep {operators : OperatorTable} (h : S.Pairs S.expr operand operand')
    (hcore : ∀ entry ∈ operators, entry.1.extension = .core) {left left' : Expr}
    (hl : S.expr.like left left') :
    S.PairsOn (S.expr.owes left) (.sum S.expr S.expr) (chainStep operators operand left)
      (chainStep operators operand' left') := by
  refine fun t => .then (fresh_eatFirst S.core_kept hcore) ?_
  rintro (_ | op)
  · exact .give hl Iff.rfl
  · refine .seq agree_start fun o o' ho => .settle (t := t) (.bind (h t) fun right right' hr => ?_)
    refine .andThen (agree_node (congrArg₂ (ExprKind.binary op) hl hr) ho (by simp)) fun e e' he => ?_
    exact .give he Iff.rfl

theorem pairs_chain {operators : OperatorTable}
    (hcore : ∀ entry ∈ operators, entry.1.extension = .core) (h : S.Pairs S.expr operand operand') :
    S.Pairs S.expr (chain operators operand) (chain operators operand') :=
  fun t => .andThen (h t) fun _ _ hl => agree_iterate (fun _ _ hl => pairs_chainStep h hcore hl t) hl

theorem pairs_suffixed {operator : Rule} {form form' : Expr → Parser (ExprKind Expr)}
    (hr : operator.extension = .core) (h : S.Pairs S.expr operand operand')
    (hform : ∀ {e e'}, S.expr.like e e' → S.PairsOn (S.expr.owes e) S.kind (form e) (form' e')) :
    S.Pairs S.expr (suffixed operator operand form) (suffixed operator operand' form') := by
  refine fun t => .andThen (h t) fun left left' hl => agree_ifReads (hr ▸ S.core_kept) ?_ (.give hl Iff.rfl)
  refine .seq agree_start fun o o' ho => .settle (t := t) (.andThen (hform hl t) fun k k' hk => ?_)
  exact agree_node hk ho Iff.rfl

end

theorem pairs_sign? : S.Pairs (.option (.prod .plain S.offset)) sign? sign? := by
  refine fun t => .then (fresh_eatFirst S.core_kept (by decide)) ?_
  rintro (_ | op)
  · exact .absent
  · exact .seq agree_start fun o o' ho => .settle (.give (.some ⟨rfl, ho⟩) (by simp))

theorem pairs_applySigns {e e' : Expr} (he : S.expr.like e e') {signs signs' : List (UnaryOperator × Nat)}
    (hs : (Likeness.list (.prod .plain S.offset)).like signs signs') :
    S.PairsOn (S.expr.owes e) S.expr (applySigns e signs) (applySigns e' signs') := by
  intro t
  induction hs with
  | nil => exact .give he Iff.rfl
  | @cons sign sign' _ _ hsign _ ih =>
    obtain ⟨op, o⟩ := sign
    obtain ⟨_, o'⟩ := sign'
    obtain ⟨rfl, ho⟩ := hsign
    exact .andThen ih fun operand operand' hoperand =>
      agree_node (congrArg (ExprKind.unary op) hoperand) ho (by simp)

theorem pairs_validationMode {o o' : Nat} (ho : S.offset.like o o') (name : String) :
    S.Pairs .plain (validationMode name o) (validationMode name o') :=
  fun _ => .ite (fun _ => .plain _) fun _ => .ite (fun _ => .plain _) fun _ =>
    agree_fatal (eq_of_offset ho) _ _

section

variable {single single' : Parser Expr}

theorem pairs_valueExpr (h : S.Pairs S.expr single single') :
    S.Pairs S.expr (valueExpr single) (valueExpr single') := by
  refine fun t => agree_ifReads S.core_kept ?_ (agree_ifReads S.core_kept ?_ (agree_ifReads S.core_kept ?_
    (agree_ifPeek rfl (.pre ?_ fun _ _ h => h.1) (pairs_pathExpr h t))))
  · refine .seq agree_start fun o o' ho => .then (agree_capturedQualifiedName 0) fun name => ?_
    refine .settle (t := t) (.then (pairs_elementName ho name t) fun name => ?_)
    refine .andThen (pairs_bracedExpr h t) fun e e' he => ?_
    exact agree_node (congrArg (ExprKind.validate none (some name)) he) ho (by simp)
  · refine .seq agree_start fun o o' ho => .then (agree_capturedName 0) fun name => ?_
    refine .settle (t := t) (.then (pairs_validationMode ho name t) fun mode => ?_)
    refine .andThen (pairs_bracedExpr h t) fun e e' he => ?_
    exact agree_node (congrArg (ExprKind.validate (some mode) none) he) ho (by simp)
  · refine .seq agree_start fun o o' ho => .settle (t := t) ?_
    refine .andThen (pairs_bracedExpr h t) fun e e' he => ?_
    exact agree_node (congrArg (ExprKind.validate none none) he) ho (by simp)
  · exact .post (agree_extensionExpr h t) fun _ _ _ h => h.unseen

theorem pairs_unaryExpr (h : S.Pairs S.expr single single') :
    S.Pairs S.expr (unaryExpr single) (unaryExpr single') := by
  refine fun t => .seq (agree_many (pairs_sign? t)) fun signs signs' hs => ?_
  exact .andThen (pairs_valueExpr h t) fun e e' he => pairs_applySigns he hs t

theorem pairs_castExpr (h : S.Pairs S.expr single single') :
    S.Pairs S.expr (castExpr single) (castExpr single') :=
  pairs_suffixed rfl (pairs_unaryExpr h) fun he t => .then (pairs_singleType t) fun type =>
    agree_form (congrArg (ExprKind.castAs · type) he) (by simp)

theorem pairs_castableExpr (h : S.Pairs S.expr single single') :
    S.Pairs S.expr (castableExpr single) (castableExpr single') :=
  pairs_suffixed rfl (pairs_castExpr h) fun he t => .then (pairs_singleType t) fun type =>
    agree_form (congrArg (ExprKind.castableAs · type) he) (by simp)

theorem pairs_treatExpr (h : S.Pairs S.expr single single') :
    S.Pairs S.expr (treatExpr single) (treatExpr single') :=
  pairs_suffixed rfl (pairs_castableExpr h) fun he t => .then (pairs_sequenceType rfl t) fun type =>
    agree_form (congrArg (ExprKind.treatAs · type) he) (by simp)

theorem pairs_instanceOfExpr (h : S.Pairs S.expr single single') :
    S.Pairs S.expr (instanceOfExpr single) (instanceOfExpr single') :=
  pairs_suffixed rfl (pairs_treatExpr h) fun he t => .then (pairs_sequenceType rfl t) fun type =>
    agree_form (congrArg (ExprKind.instanceOf · type) he) (by simp)

theorem pairs_unionExpr (h : S.Pairs S.expr single single') :
    S.Pairs S.expr (unionExpr single) (unionExpr single') :=
  pairs_chain (by decide) (pairs_chain (by decide) (pairs_instanceOfExpr h))

theorem pairs_additiveExpr (h : S.Pairs S.expr single single') :
    S.Pairs S.expr (additiveExpr single) (additiveExpr single') :=
  pairs_chain (by decide) (pairs_chain (by decide) (pairs_unionExpr h))

theorem pairs_rangeExpr (h : S.Pairs S.expr single single') :
    S.Pairs S.expr (rangeExpr single) (rangeExpr single') :=
  pairs_suffixed rfl (pairs_additiveExpr h) fun hf t => .bind (pairs_additiveExpr h t) fun last last' hl =>
    agree_form (congrArg₂ ExprKind.range hf hl) (by simp)

theorem pairs_ftContainsExpr (h : S.Pairs S.expr single single') :
    S.Pairs S.expr (ftContainsExpr single) (ftContainsExpr single') := by
  refine fun t => .andThen (pairs_rangeExpr h t) fun left left' hl => ?_
  refine .bind (uses_eatFirst (x := .fullText) (by decide)) ?_
  rintro (_ | _) _ rfl
  · exact .give hl (by simp)
  refine .shows (K := S.Drops .fullText ∨ S.expr.owes left) ?_ (by simp [or_comm])
  refine .seq agree_start fun o o' ho => .settle (t := t) ?_
  refine .bindIf (fun hn => pairs_ftSelection (mt .inl hn) h (pairs_additiveExpr h) t) ?_
  intro selection selection' hs
  refine .bindIf (fun hn => agree_whenEats (mt (.inl ∘ .inl) hn) (pairs_unionExpr h)) ?_
  intro without without' hw
  exact agree_node (congrArg₃ ExprKind.ftContains hl hs (option_map_of_like hw)) ho (by simp)

theorem pairs_comparisonExpr (h : S.Pairs S.expr single single') :
    S.Pairs S.expr (comparisonExpr single) (comparisonExpr single') := by
  refine fun t => .andThen (pairs_ftContainsExpr h t) fun left left' hl => ?_
  refine .then (fresh_eatFirst S.core_kept (by decide)) ?_
  rintro (_ | op)
  · exact .give hl Iff.rfl
  · refine .seq agree_start fun o o' ho => .settle (t := t) ?_
    refine .bind (pairs_ftContainsExpr h t) fun right right' hr => ?_
    exact agree_node (congrArg₂ (ExprKind.binary op) hl hr) ho (by simp)

theorem pairs_orExpr (h : S.Pairs S.expr single single') :
    S.Pairs S.expr (orExpr single) (orExpr single') :=
  pairs_chain (by decide) (pairs_chain (by decide) (pairs_comparisonExpr h))

end

/-! ### Expressions that begin with a keyword -/

theorem pairs_errorTest : S.Pairs .plain errorTest errorTest := by
  refine fun t => .then (pairs_nameTest none t) ?_
  rintro (_ | test)
  · exact agree_unexpected _
  · exact .plain _

theorem pairs_catchTests : S.Pairs .plain catchTests catchTests := by
  refine fun t => agree_ifEat S.core_kept ?_ (agree_ifEat S.core_kept ?_ (.plain _))
  · refine .then (pairs_errorTest t) fun test => ?_
    refine .then (agree_manyPlain (agree_whenPlain S.core_kept pairs_variableName)) fun names => ?_
    exact .then (agree_expect S.core_kept) fun _ => .plain _
  · exact .then (agree_separatedPlain S.core_kept pairs_errorTest) fun _ => .plain _

section

variable {single single' : Parser Expr}

theorem pairs_quantifiedBinding (h : S.Pairs S.expr single single') :
    S.Pairs S.variableBinding (quantifiedBinding single) (quantifiedBinding single') := by
  refine fun t => .then (pairs_typedVariable t) fun v => .then (agree_expect S.core_kept) fun _ => ?_
  exact .andThen (h t) fun value value' hv => .give (congrArg (VariableBinding.mk v.1 v.2) hv) (by simp)

theorem pairs_quantified (h : S.Pairs S.expr single single') (quantifier : Quantifier)
    (ho : S.offset.like o o') :
    S.Pairs S.expr (quantified single quantifier o) (quantified single' quantifier o') := by
  refine fun t => .andThen (agree_separatedBy S.core_kept (pairs_quantifiedBinding h)) fun bs bs' hb => ?_
  refine .then (agree_expect S.core_kept) fun _ => .bind (h t) fun condition condition' hc => ?_
  exact agree_node (congrArg₂ (ExprKind.quantified quantifier) (map_of_like hb) hc) ho (by simp)

theorem pairs_conditional (h : S.Pairs S.expr single single') (ho : S.offset.like o o') :
    S.Pairs S.expr (conditional single o) (conditional single' o') := by
  refine fun t => .andThen (pairs_parenthesizedExpr h t) fun condition condition' hc => ?_
  refine .then (agree_expect S.core_kept) fun _ => .bind (h t) fun thenExpr thenExpr' ht => ?_
  refine .then (agree_expect S.core_kept) fun _ => .bind (h t) fun elseExpr elseExpr' he => ?_
  exact agree_node (congrArg₃ ExprKind.ifThenElse hc ht he) ho (by simp)

theorem pairs_switchCase (h : S.Pairs S.expr single single') :
    S.Pairs S.switchCase.option (switchCase single) (switchCase single') := by
  refine fun t => .andThen (agree_many (agree_whenEats S.core_kept h)) fun operands operands' hoperands => ?_
  cases hoperands with
  | nil => exact .give .none (by simp)
  | @cons first first' rest rest' hf hr =>
    refine .then (agree_expect S.core_kept) fun _ => .bind (h t) fun result result' hresult => ?_
    exact .give (.some (congrArg₂ SwitchCase.mk (map_of_like (.cons hf hr)) hresult)) (by simp [SwitchCase.children, or_assoc])

/-- A list of branches is empty in both runs or in neither. -/
theorem isEmpty_of_like {α : Type} {L : S.Likeness α} {as as' : List α} (h : L.list.like as as') :
    as'.isEmpty = as.isEmpty := by
  cases h <;> rfl

theorem pairs_switchExpr (h : S.Pairs S.expr single single') (ho : S.offset.like o o') :
    S.Pairs S.expr (switchExpr single o) (switchExpr single' o') := by
  refine fun t => .andThen (pairs_parenthesizedExpr h t) fun operand operand' hoperand => ?_
  refine .bind (agree_many (pairs_switchCase h t)) fun cases cases' hc => ?_
  rw [isEmpty_of_like hc]
  have hrest : S.Agree (S.expr.owes operand ∨ S.switchCase.list.owes cases) (S.Near t)
      (do
        expect Terminal.defaultReturn
        node (.switch operand cases (← single)) o)
      (do
        expect Terminal.defaultReturn
        node (.switch operand' cases' (← single')) o') S.expr fun _ => S.Near t := by
    refine .then (agree_expect S.core_kept) fun _ => .bind (h t) fun default default' hd => ?_
    exact agree_node (congrArg₃ ExprKind.switch hoperand (map_of_like hc) hd) ho (by simp)
  exact .ite (fun _ => agree_unexpectedThen _) fun _ => hrest

theorem pairs_caseVariable : S.Pairs .plain caseVariable caseVariable := by
  refine fun t => agree_ifPeek rfl (.unsee ?_) (.plain _)
  exact .then (pairs_variableName t) fun _ => .then (agree_expect S.core_kept) fun _ => .plain _

theorem pairs_typeswitchCase (h : S.Pairs S.expr single single') :
    S.Pairs S.typeswitchCase.option (typeswitchCase single) (typeswitchCase single') := by
  refine fun t => agree_whenEats S.core_kept fun t => .then (pairs_caseVariable t) fun name => ?_
  refine .then (agree_separatedPlain S.core_kept (pairs_sequenceType rfl)) fun types => .then (agree_expect S.core_kept) fun _ => ?_
  exact .andThen (h t) fun result result' hr => .give (congrArg (TypeswitchCase.mk name types) hr) (by simp)

theorem pairs_defaultVariable : S.Pairs .plain defaultVariable defaultVariable := by
  refine fun t => agree_ifEat S.core_kept ?_ (.then (agree_expect S.core_kept) fun _ => .plain _)
  exact .then (pairs_variableName t) fun _ => .then (agree_expect S.core_kept) fun _ => .plain _

theorem pairs_typeswitchExpr (h : S.Pairs S.expr single single') (ho : S.offset.like o o') :
    S.Pairs S.expr (typeswitchExpr single o) (typeswitchExpr single' o') := by
  refine fun t => .andThen (pairs_parenthesizedExpr h t) fun operand operand' hoperand => ?_
  refine .bind (agree_many (pairs_typeswitchCase h t)) fun cases cases' hc => ?_
  rw [isEmpty_of_like hc]
  have hrest : S.Agree (S.expr.owes operand ∨ S.typeswitchCase.list.owes cases) (S.Near t)
      (do
        let name ← defaultVariable
        node (.typeswitch operand cases name (← single)) o)
      (do
        let name ← defaultVariable
        node (.typeswitch operand' cases' name (← single')) o') S.expr fun _ => S.Near t := by
    refine .then (pairs_defaultVariable t) fun name => .bind (h t) fun default default' hd => ?_
    exact agree_node (congrArg₃ (ExprKind.typeswitch · · name ·) hoperand (map_of_like hc) hd) ho (by simp)
  exact .ite (fun _ => agree_unexpectedThen _) fun _ => hrest

theorem pairs_catchClause (h : S.Pairs S.expr single single') :
    S.Pairs S.catchClause.option (catchClause single) (catchClause single') := by
  refine fun t => .then (pairs_catchTests t) ?_
  rintro (_ | ⟨tests, names⟩)
  · exact .absent
  · exact .andThen (pairs_enclosedExpr h t) fun body body' hb =>
      .give (.some (congrArg (CatchClause.mk tests names) hb)) (by simp)

theorem pairs_tryCatch (h : S.Pairs S.expr single single') (ho : S.offset.like o o') :
    S.Pairs S.expr (tryCatch single o) (tryCatch single' o') := by
  refine fun t => .andThen (pairs_enclosedExpr h t) fun body body' hb => ?_
  refine .bind (agree_many (pairs_catchClause h t)) fun catches catches' hc => ?_
  rw [isEmpty_of_like hc]
  have hrest : S.Agree (S.expr.owes body ∨ S.catchClause.list.owes catches) (S.Near t)
      (node (.tryCatch body catches) o) (node (.tryCatch body' catches') o') S.expr fun _ => S.Near t :=
    agree_node (congrArg₂ ExprKind.tryCatch hb (map_of_like hc)) ho (by simp)
  exact .ite (fun _ => agree_unexpectedThen _) fun _ => hrest

/-! ### Single expressions -/

theorem pairs_singleOf (h : S.Pairs S.expr single single') :
    S.Pairs S.expr (singleOf single) (singleOf single') := by
  refine fun t => .andThen (pairs_flwor h t) ?_
  rintro _ _ (he | _)
  · exact .give he (by simp)
  refine .shows (K := False) (agree_ifReads S.core_kept ?_ (agree_ifReads S.core_kept ?_ (agree_ifReads S.core_kept ?_ (agree_ifReads S.core_kept ?_
    (agree_ifReads S.core_kept ?_ (agree_ifReads S.core_kept ?_ (.andThen (pairs_updateExpr h t) ?_))))))) (by simp)
  · exact .seq agree_start fun o o' ho => (pairs_quantified h .some ho t).settle
  · exact .seq agree_start fun o o' ho => (pairs_quantified h .every ho t).settle
  · exact .seq agree_start fun o o' ho => (pairs_switchExpr h ho t).settle
  · exact .seq agree_start fun o o' ho => (pairs_typeswitchExpr h ho t).settle
  · exact .seq agree_start fun o o' ho => (pairs_conditional h ho t).settle
  · exact .seq agree_start fun o o' ho => (pairs_tryCatch h ho t).settle
  rintro _ _ (he | _)
  · exact .give he (by simp)
  refine .shows (K := False) (.andThen (pairs_scriptingExpr h t) ?_) (by simp)
  rintro _ _ (he | _)
  · exact .give he (by simp)
  · exact (pairs_orExpr h t).shows (by simp)

end

theorem pairs_singleWithin {n n' : Nat} (hn : S.rounds.like n n') :
    S.Pairs S.expr (singleWithin n) (singleWithin n') := by
  induction n generalizing n' with
  | zero => exact fun _ => agree_zero singleWithin hn rfl
  | succ n ih =>
    obtain ⟨m, rfl, hm⟩ := rounds_succ hn
    exact pairs_nested (pairs_singleOf (ih hm))

theorem pairs_exprSingle : S.Pairs S.expr exprSingle exprSingle :=
  fun t => .look (L := S.rounds) (fun _ _ h => rounds_like h) fun _ _ hn => pairs_singleWithin hn t

theorem pairs_expressionUnit : S.Pairs S.expr expressionUnit expressionUnit := by
  refine fun t => .andThen (pairs_expr pairs_exprSingle t) fun e e' he => ?_
  exact .then (pairs_expectEnd t) fun _ => .give he Iff.rfl

end XQuerySyntax.Grammar
