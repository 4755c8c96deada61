import XQuerySyntax.Grammar.Expr
import XQuerySyntax.Proofs.Progress.Clause
import XQuerySyntax.Grammar.Path
import XQuerySyntax.Proofs.Progress.Markup

/-! Paths, steps and primary expressions come to an end. A step that is found has used text up, so what is
applied to it, and the steps behind it, are further on. -/

namespace XQuerySyntax.Progress

open XQuerySyntax.Parser XQuerySyntax.Grammar

variable {n c : Nat} {single : Parser Expr}

/-! ### Steps -/

theorem stays_nameTestNamespace (axis : Axis) : Stays n c (nameTestNamespace axis) :=
  uses_ite (stays_pure _) (stays_consult _)

theorem stays_nodeTest (axis : Axis) : Stays n c (nodeTest axis) := by
  refine finds_kindTest.seq ?_ fun test => stays_pure _
  refine (stays_nameTestNamespace axis).seq fun default => (finds_nameTest default).seq ?_ fun test => stays_pure _
  exact uses_unexpected _

theorem finds_stepTest : Finds n c stepTest := by
  refine (stays_observe _).seq fun begin => uses_ifEat (by rfl) ?_ (uses_ifEat (by rfl) ?_
    (uses_ifEat (by rfl) ?_ (finds_kindTest.seq ?_ fun test => stays_pure _)))
  · refine (stays_observe _).seq fun offset => (stays_observe _).seq fun name => ?_
    cases Axis.ofName? name with
    | none => exact uses_fatal (by decide) _ _
    | some axis => exact (stays_nodeTest axis).seq fun _ => stays_pure _
  · exact (stays_observe _).seq fun offset => (stays_nodeTest _).seq fun _ => stays_pure _
  · exact (stays_observe _).seq fun offset => stays_pure _
  · refine (stays_nameTestNamespace _).seq fun default => ?_
    exact (finds_nameTest default).seq finds_none fun test => stays_pure _

theorem stays_filtered (base : Expr) (predicates : List Expr) : Stays n c (filtered base predicates) := by
  cases predicates with
  | nil => exact stays_pure _
  | cons p ps => exact stays_node _ _

theorem finds_literal? : Finds n c literal? := by
  refine uses_ifEat (by rfl) ?_ (uses_ifEat (by rfl) ?_ finds_none)
  · refine (stays_observe _).seq fun offset => (stays_observe _).seq fun value => ?_
    exact (stays_node _ _).seq fun _ => stays_pure _
  · refine (stays_observe _).seq fun offset => (stays_observe _).seq fun value => ?_
    exact (stays_node _ _).seq fun _ => stays_pure _

theorem stays_namedFunctionRef : Stays n c namedFunctionRef := by
  refine (stays_observe _).seq fun offset => (stays_observe _).seq fun lexical => ?_
  refine (stays_observe _).seq fun found => ?_
  have hnode (arity : Nat) : Stays n c (do
      let name ← functionName lexical offset
      node (.namedFunctionRef name arity) offset) :=
    (stays_functionName lexical offset).seq fun name => stays_node _ _
  match found with
  | some (.integer arity) => exact hnode arity
  | none => exact uses_fatal (by decide) _ _
  | some (.string _) => exact uses_fatal (by decide) _ _
  | some (.decimal ..) => exact uses_fatal (by decide) _ _
  | some (.double ..) => exact uses_fatal (by decide) _ _

theorem stays_predicate (h : Gains n c single) : Stays n c (predicate single) :=
  (gains_expr h).stays.seq fun _ => (stays_expect _).seq fun _ => stays_pure _

theorem finds_axisStep (h : Gains n (c + 1) single) : Finds n c (axisStep single) := by
  refine finds_stepTest.seq finds_none ?_
  rintro ⟨axis, test, offset⟩
  refine (stays_goto _).seq fun _ => (stays_many (finds_whenEats (by rfl) (stays_predicate h.up))).seq fun ps => ?_
  exact (stays_node _ _).seq fun _ => stays_pure _

/-! ### Calls -/

theorem stays_argument (h : Gains n c single) : Stays n c (argument single) :=
  stays_ifEat ((stays_observe _).seq fun _ => stays_node _ _) h.stays

theorem stays_argumentList (h : Gains n c single) : Stays n c (argumentList single) := by
  refine stays_ifEat (stays_pure _) ((stays_separatedBy (by rfl) (stays_argument h)).seq fun args => ?_)
  exact (stays_expect _).seq fun _ => stays_pure _

theorem rounds_applicationStep (h : Gains n (c + 1) single) (state : Expr × List Expr) :
    Rounds n c (applicationStep single state) := by
  obtain ⟨base, ps⟩ := state
  refine uses_ifEat (by rfl) ?_ (uses_ifEat (by rfl) ?_ ?_)
  · exact (stays_predicate h).seq fun _ => stays_pure _
  · refine (stays_filtered base ps).seq fun function => (stays_argumentList h).seq fun args => ?_
    exact (stays_node _ _).seq fun _ => stays_pure _
  · exact (stays_filtered base ps).seq fun _ => uses_pure rfl

theorem stays_applications (h : Gains n (c + 1) single) (base : Expr) : Stays n c (applications single base) :=
  stays_iterate (rounds_applicationStep h) _

theorem stays_parenthesized (h : Gains n c single) : Stays n c (parenthesized single) := by
  refine (stays_observe _).seq fun offset => stays_ifEat (stays_node _ _) ((gains_expr h).stays.seq fun e => ?_)
  exact (stays_expect _).seq fun _ => stays_pure _

theorem finds_functionCall? (h : Gains n (c + 1) single) : Finds n c (functionCall? single) := by
  refine (stays_peek _).seq fun _ => uses_ite finds_none ((stays_observe _).seq fun lexical => ?_)
  refine uses_ite finds_none ((gains_expect (by rfl)).seq fun _ => (stays_observe _).seq fun offset => ?_)
  refine (stays_functionName lexical offset).seq fun name => (stays_argumentList h).seq fun args => ?_
  exact (stays_node _ _).seq fun _ => stays_pure _

theorem finds_primary (h : Gains n (c + 1) single) : Finds n c (primary single) := by
  have hbraced (form : Expr → ExprKind Expr) : Stays n (c + 1) (do
      let offset ← start
      return some (← node (form (← bracedExpr single)) offset)) := by
    refine (stays_observe _).seq fun offset => (stays_bracedExpr h).seq fun e => ?_
    exact (stays_node _ _).seq fun _ => stays_pure _
  have hfunction := (gains_inlineFunction h).some
  refine finds_literal?.seq (uses_ifPeek ?_ (uses_ifEat (by rfl) ((stays_parenthesized h).seq fun _ => stays_pure _)
    ((stays_peek _).seq ?_))) fun e => stays_pure _
  · refine gains_variableName.seq fun name => (stays_observe _).seq fun offset => ?_
    exact (stays_node _ _).seq fun _ => stays_pure _
  intro dots
  extract_lets rest
  have hrest : Finds n c (rest ()) := by
    refine (finds_directConstructor h).seq ?_ fun e => stays_pure _
    refine (finds_computedConstructor h).seq ?_ fun e => stays_pure _
    exact uses_ifEat (by rfl) (hbraced .ordered) (uses_ifEat (by rfl) (hbraced .unordered)
      (uses_ifPeek hfunction (uses_ifPeek hfunction (uses_ifEat (by rfl)
      (stays_namedFunctionRef.seq fun _ => stays_pure _) (finds_functionCall? h)))))
  refine uses_ite (uses_ifEat (by rfl) ((stays_observe _).seq fun offset => ?_) hrest) hrest
  exact (stays_node _ _).seq fun _ => stays_pure _

/-! ### Paths -/

theorem finds_stepExpr (h : Gains n (c + 1) single) : Finds n c (stepExpr single) :=
  (finds_primary h).seq (finds_axisStep h) fun base => (stays_applications h.up base).seq fun _ => stays_pure _

theorem gains_requiredStep (h : Gains n (c + 1) single) : Gains n c (requiredStep single) :=
  (finds_stepExpr h).seq (uses_unexpected _) fun _ => stays_pure _

theorem finds_furtherSteps (h : Gains n (c + 1) single) : Finds n c (furtherSteps single) := by
  have hstep : Gains n (c + 1) (requiredStep single) := gains_requiredStep h.up
  refine uses_ifEat (by rfl) ?_ (uses_ifEat (by rfl) (hstep.stays.seq fun _ => stays_pure _) finds_none)
  refine (stays_observe _).seq fun offset => (stays_node _ _).seq fun descend => ?_
  exact hstep.stays.seq fun _ => stays_pure _

theorem stays_relativePath (h : Gains n (c + 1) single) (origin : PathRoot) (first : List Expr) (offset : Nat) :
    Stays n c (relativePath single origin first offset) := by
  refine (stays_many (finds_furtherSteps h)).seq fun more => ?_
  dsimp only
  split
  · split
    · exact stays_node _ _
    · exact stays_pure _
  · exact stays_node _ _

theorem gains_pathExpr (h : Gains n (c + 1) single) : Gains n c (pathExpr single) := by
  have hpath (origin : PathRoot) (first : List Expr) (offset : Nat) :
      Stays n (c + 1) (relativePath single origin first offset) := stays_relativePath h.up origin first offset
  refine uses_ifEat (by rfl) ?_ (uses_ifEat (by rfl) ?_ ?_)
  · refine (stays_observe _).seq fun offset => (stays_node _ _).seq fun descend => ?_
    exact (gains_requiredStep h.up).stays.seq fun step => hpath _ _ _
  · refine (stays_observe _).seq fun offset => (finds_stepExpr h.up).stays.seq ?_
    rintro (_ | step)
    · exact (stays_goto _).seq fun _ => stays_node _ _
    · exact hpath _ _ _
  · exact (gains_requiredStep h).seq fun step => hpath _ _ _

end XQuerySyntax.Progress

/-! ### Expressions

Operators and single expressions come to an end. An operand uses text up, so its operators and the
operands behind them are further on; and so is every single expression inside another. -/

namespace XQuerySyntax.Progress

open XQuerySyntax.Parser XQuerySyntax.Grammar

variable {n c : Nat} {single operand : Parser Expr}

/-! ### Operators -/

theorem rounds_chainStep {operators : OperatorTable} (hvisible : ∀ x ∈ operators, x.1.isVisible = true)
    (h : Stays n (c + 1) operand) (left : Expr) : Rounds n c (chainStep operators operand left) := by
  refine (finds_eatFirst hvisible).seq (uses_pure rfl) fun op => (stays_observe _).seq fun offset => ?_
  exact h.seq fun right => (stays_node _ _).seq fun _ => stays_pure _

theorem gains_chain {operators : OperatorTable} (hvisible : ∀ x ∈ operators, x.1.isVisible = true)
    (h : Gains n c operand) : Gains n c (chain operators operand) :=
  h.seq fun left => stays_iterate (rounds_chainStep hvisible h.stays.up.up) left

theorem gains_suffixed {operator : Rule} {form : Expr → Parser (ExprKind Expr)} (h : Gains n c operand)
    (hform : ∀ left, Stays n (c + 1) (form left)) : Gains n c (suffixed operator operand form) := by
  refine h.seq fun left => stays_ifEat ((stays_observe _).seq fun offset => ?_) (stays_pure _)
  exact (hform left).seq fun kind => stays_node kind offset

theorem finds_sign? : Finds n c sign? :=
  (finds_eatFirst (by decide)).seq finds_none fun op => (stays_observe _).seq fun _ => stays_pure _

theorem stays_applySigns (e : Expr) (signs : List (UnaryOperator × Nat)) : Stays n c (applySigns e signs) := by
  induction signs with
  | nil => exact stays_pure _
  | cons sign signs ih => exact ih.seq fun inner => stays_node _ _

theorem stays_validationMode (name : String) (offset : Nat) : Stays n c (validationMode name offset) :=
  uses_ite (stays_pure _) (uses_ite (stays_pure _) (uses_fatal (by decide) _ _))

theorem gains_valueExpr (h : Gains n (c + 1) single) : Gains n c (valueExpr single) := by
  have hvalidate (mode : Option ValidationMode) (type : Option QName) (offset : Nat) : Stays n (c + 1) (do
      return ← node (.validate mode type (← bracedExpr single)) offset) :=
    (stays_bracedExpr h).seq fun e => stays_node _ _
  refine uses_ifEat (by rfl) ?_ (uses_ifEat (by rfl) ?_ (uses_ifEat (by rfl) ?_
    (uses_ifPeek (gains_extensionExpr h) (gains_pathExpr h))))
  · refine (stays_observe _).seq fun offset => (stays_observe _).seq fun name => ?_
    exact (stays_elementName name offset).seq fun name => hvalidate none (some name) offset
  · refine (stays_observe _).seq fun offset => (stays_observe _).seq fun name => ?_
    exact (stays_validationMode name offset).seq fun mode => hvalidate (some mode) none offset
  · exact (stays_observe _).seq fun offset => hvalidate none none offset

theorem gains_unaryExpr (h : Gains n (c + 1) single) : Gains n c (unaryExpr single) := by
  refine (stays_many finds_sign?).seq fun signs => ?_
  exact (gains_valueExpr h).seq fun e => stays_applySigns e signs

theorem gains_castableExpr (h : Gains n (c + 1) single) : Gains n c (castableExpr single) := by
  have hcast : Gains n c (castExpr single) :=
    gains_suffixed (gains_unaryExpr h) fun left => stays_singleType.seq fun _ => stays_pure _
  exact gains_suffixed hcast fun left => stays_singleType.seq fun _ => stays_pure _

theorem gains_instanceOfExpr (h : Gains n (c + 1) single) : Gains n c (instanceOfExpr single) := by
  have htreat : Gains n c (treatExpr single) :=
    gains_suffixed (gains_castableExpr h) fun left => (stays_sequenceType _).seq fun _ => stays_pure _
  exact gains_suffixed htreat fun left => (stays_sequenceType _).seq fun _ => stays_pure _

theorem gains_unionExpr (h : Gains n (c + 1) single) : Gains n c (unionExpr single) :=
  gains_chain (by decide) (gains_chain (by decide) (gains_instanceOfExpr h))

theorem gains_additiveExpr (h : Gains n (c + 1) single) : Gains n c (additiveExpr single) :=
  gains_chain (by decide) (gains_chain (by decide) (gains_unionExpr h))

theorem gains_rangeExpr (h : Gains n (c + 1) single) : Gains n c (rangeExpr single) :=
  gains_suffixed (gains_additiveExpr h) fun _ =>
    (gains_additiveExpr h).up.stays.seq fun _ => stays_pure _

theorem gains_ftContainsExpr (h : Gains n (c + 1) single) : Gains n c (ftContainsExpr single) := by
  have hadditive : Gains n (c + 1) (additiveExpr single) := (gains_additiveExpr h).up
  have hunion : Gains n (c + 1) (unionExpr single) := (gains_unionExpr h).up
  refine (gains_rangeExpr h).seq fun left => (stays_eatFirst _).seq ?_
  rintro (_ | _)
  · exact stays_pure _
  · refine (stays_observe _).seq fun offset => (stays_ftSelection h hadditive).seq fun selection => ?_
    exact (stays_whenEats hunion.stays).seq fun _ => stays_node _ _

theorem gains_comparisonExpr (h : Gains n (c + 1) single) : Gains n c (comparisonExpr single) := by
  have hoperand : Gains n c (ftContainsExpr single) := gains_ftContainsExpr h
  refine hoperand.seq fun left => (stays_eatFirst _).seq ?_
  rintro (_ | op)
  · exact stays_pure _
  · refine (stays_observe _).seq fun offset => hoperand.up.stays.seq fun right => ?_
    exact stays_node _ _

theorem gains_orExpr (h : Gains n (c + 1) single) : Gains n c (orExpr single) :=
  gains_chain (by decide) (gains_chain (by decide) (gains_comparisonExpr h))

/-! ### Expressions that begin with a keyword -/

theorem stays_errorTest : Stays n c errorTest := by
  refine (finds_nameTest none).stays.seq ?_
  rintro (_ | test)
  · exact uses_unexpected _
  · exact stays_pure _

theorem finds_catchTests : Finds n c catchTests := by
  refine uses_ifEat (by rfl) ?_ (uses_ifEat (by rfl) ?_ finds_none)
  · refine stays_errorTest.seq fun test => ?_
    refine (stays_many (finds_whenEats (by rfl) gains_variableName.stays)).seq fun names => ?_
    exact (stays_expect _).seq fun _ => stays_pure _
  · exact (stays_separatedBy (by rfl) stays_errorTest).seq fun tests => stays_pure _

theorem stays_quantified (h : Gains n c single) (quantifier : Quantifier) (offset : Nat) :
    Stays n c (quantified single quantifier offset) := by
  have hbinding : Stays n c (quantifiedBinding single) := by
    refine stays_typedVariable.seq fun ⟨name, type⟩ => (stays_expect _).seq fun _ => ?_
    exact h.stays.seq fun _ => stays_pure _
  refine (stays_separatedBy (by rfl) hbinding).seq fun bindings => (stays_expect _).seq fun _ => ?_
  exact h.stays.seq fun satisfies => stays_node _ _

theorem stays_conditional (h : Gains n c single) (offset : Nat) : Stays n c (conditional single offset) := by
  refine (stays_parenthesizedExpr h).seq fun condition => (stays_expect _).seq fun _ => ?_
  refine h.stays.seq fun yes => (stays_expect _).seq fun _ => ?_
  exact h.stays.seq fun no => stays_node _ _

/-- A branch without values is no branch, and with one it has used text up. -/
theorem finds_switchCase (h : Gains n (c + 1) single) : Finds n c (switchCase single) := by
  refine fun b hb => Contract.bind (uses_many (finds_whenEats (by rfl) h.stays) b hb) ?_
  rintro (_ | ⟨operand, operands⟩)
  · exact finds_none b hb
  · have hresult : Stays n (c + 1) (do
        expect Terminal.returnClause
        return some (SwitchCase.mk (operand :: operands) (← single))) :=
      (stays_expect _).seq fun _ => h.stays.seq fun _ => stays_pure _
    exact hresult.uses hb

theorem stays_switchExpr (h : Gains n c single) (offset : Nat) : Stays n c (switchExpr single offset) := by
  refine (stays_parenthesizedExpr h).seq fun operand => (stays_many (finds_switchCase h.up)).seq fun cases => ?_
  have hend : Stays n c (do
      expect Terminal.defaultReturn
      let default ← single
      node (.switch operand cases default) offset) :=
    (stays_expect _).seq fun _ => h.stays.seq fun default => stays_node _ _
  exact uses_ite ((stays_unexpected _).seq fun _ => hend) hend

theorem stays_caseVariable : Stays n c caseVariable :=
  uses_ifPeek (gains_variableName.stays.seq fun _ => (stays_expect _).seq fun _ => stays_pure _) (stays_pure _)

theorem finds_typeswitchCase (h : Gains n (c + 1) single) : Finds n c (typeswitchCase single) := by
  refine finds_whenEats (by rfl) (stays_caseVariable.seq fun name => ?_)
  refine (stays_separatedBy (by rfl) (stays_sequenceType _)).seq fun types => (stays_expect _).seq fun _ => ?_
  exact h.stays.seq fun _ => stays_pure _

theorem stays_defaultVariable : Stays n c defaultVariable := by
  refine stays_ifEat (gains_variableName.stays.seq fun _ => ?_) ?_
  · exact (stays_expect _).seq fun _ => stays_pure _
  · exact (stays_expect _).seq fun _ => stays_pure _

theorem stays_typeswitchExpr (h : Gains n c single) (offset : Nat) : Stays n c (typeswitchExpr single offset) := by
  refine (stays_parenthesizedExpr h).seq fun operand => (stays_many (finds_typeswitchCase h.up)).seq fun cases => ?_
  have hend : Stays n c (do
      let name ← defaultVariable
      let default ← single
      node (.typeswitch operand cases name default) offset) :=
    stays_defaultVariable.seq fun name => h.stays.seq fun default => stays_node _ _
  exact uses_ite ((stays_unexpected _).seq fun _ => hend) hend

theorem finds_catchClause (h : Gains n (c + 1) single) : Finds n c (catchClause single) :=
  finds_catchTests.seq finds_none fun _ => (stays_enclosedExpr h).seq fun _ => stays_pure _

theorem stays_tryCatch (h : Gains n c single) (offset : Nat) : Stays n c (tryCatch single offset) := by
  refine (stays_enclosedExpr h).seq fun body => (stays_many (finds_catchClause h.up)).seq fun catches => ?_
  exact uses_ite ((stays_unexpected _).seq fun _ => stays_node _ _) (stays_node _ _)

/-! ### Single expressions -/

/-- The single expressions inside a single expression are further on. -/
theorem gains_singleOf (h : Gains n (c + 1) single) : Gains n c (singleOf single) := by
  refine (finds_flwor h).seq (uses_ifEat (by rfl) ((stays_observe _).seq (stays_quantified h _))
    (uses_ifEat (by rfl) ((stays_observe _).seq (stays_quantified h _))
    (uses_ifEat (by rfl) ((stays_observe _).seq (stays_switchExpr h))
    (uses_ifEat (by rfl) ((stays_observe _).seq (stays_typeswitchExpr h))
    (uses_ifEat (by rfl) ((stays_observe _).seq (stays_conditional h))
    (uses_ifEat (by rfl) ((stays_observe _).seq (stays_tryCatch h)) ?_)))))) fun e => stays_pure _
  refine (finds_updateExpr h).seq ?_ fun e => stays_pure _
  exact (finds_scriptingExpr h).seq (gains_orExpr h) fun e => stays_pure _

theorem gains_singleWithin {steps : Nat} (hsteps : n < c + steps) : Gains n c (singleWithin steps) := by
  induction steps generalizing c with
  | zero => exact uses_of_lt hsteps
  | succ steps ih => exact uses_nested (gains_singleOf (ih (by omega)))

theorem gains_exprSingle : Gains n c exprSingle := uses_steps fun _ => gains_singleWithin

end XQuerySyntax.Progress
