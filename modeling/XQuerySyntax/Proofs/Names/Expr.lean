import XQuerySyntax.Grammar.Expr
import XQuerySyntax.Proofs.Names.FullText
import XQuerySyntax.Grammar.Path
import XQuerySyntax.Proofs.Names.Markup

/-! Accounts of paths and primary expressions. A primary expression that turns out not to begin here has
looked up no name. -/

namespace XQuerySyntax.Grammar

open XQuerySyntax.Parser

attribute [local simp] ExprKind.unbound ExprKind.children

variable {single : Parser Expr} {t : Stock} {offset : Nat}

/-! ### Steps -/

theorem quiet_nameTestNamespace (axis : Axis) : Quiet (nameTestNamespace axis) :=
  quiet_ite (quiet_pure _) (quiet_consult _)

theorem accounts_nodeTest (axis : Axis) : Accounts (nodeTest axis) (.naming NodeTest.unbound) := by
  refine fun t => accounts_kindTest.bind ?_
  rintro (_ | test)
  · rw [Stock.maybe_none, Stock.append_empty]
    refine (quiet_nameTestNamespace axis).bind fun default => (accounts_nameTest default).bind ?_
    rintro (_ | test)
    · exact carries_unexpected _
    · exact carries_pure rfl rfl
  · exact carries_pure rfl rfl

theorem accounts_stepTest :
    Accounts stepTest (.maybe fun found => .naming NodeTest.unbound found.2.1) := by
  refine fun t => (quiet_observe _).bind fun begin => carries_ifEat ?_ (carries_ifEat ?_ (carries_ifEat ?_
    (accounts_kindTest.bind ?_)))
  · refine (quiet_observe _).bind fun offset => (quiet_observe _).bind fun name => ?_
    dsimp only
    split
    · exact (accounts_nodeTest _).bind fun test => carries_pure rfl rfl
    · exact carries_fatal _ _ _
  · exact (quiet_observe _).bind fun offset => (accounts_nodeTest _).bind fun test => carries_pure rfl rfl
  · refine (quiet_observe _).bind fun offset => carries_pure ?_ ?_
    · simp [NodeTest.unbound, KindTest.unbound]
    · simp
  · rintro (_ | test)
    · rw [Stock.maybe_none, Stock.append_empty]
      refine (quiet_nameTestNamespace _).bind fun default => (accounts_nameTest default).bind ?_
      rintro (_ | test)
      · exact carries_pure rfl rfl
      · exact carries_pure rfl rfl
    · exact carries_pure rfl rfl

theorem accounts_descendantStep (offset : Nat) : Builds (descendantStep offset) :=
  fun _ => carries_node (by simp [NodeTest.unbound, KindTest.unbound])
    (by simp)

theorem carries_filtered (base : Expr) (predicates : List Expr) :
    Carries (t ++ .one base ++ .all .one predicates) (filtered base predicates) fun e => t ++ .one e := by
  cases predicates with
  | nil => exact carries_pure (by simp) (by simp)
  | cons p ps => exact carries_node (by simp) (by simp)

/-! ### Primary expressions -/

theorem accounts_literal? : BuildsOptional literal? := by
  refine fun t => carries_ifEat ?_ (carries_ifEat ?_ (accounts_none t))
  · refine (quiet_observe _).bind fun offset => (quiet_observe _).bind fun value => ?_
    exact carries_someNode (by simp) (by simp)
  · refine (quiet_observe _).bind fun offset => (quiet_observe _).bind fun value => ?_
    exact carries_someNode (by simp) (by simp)

theorem accounts_namedFunctionRef : Builds namedFunctionRef := by
  refine fun t => (quiet_observe _).bind fun offset => (quiet_observe _).bind fun name => ?_
  refine (quiet_observe _).bind fun arity => ?_
  split
  · refine (accounts_functionName name offset).bind fun _ => carries_node ?_ ?_
    · simp
    · simp
  · exact carries_fatal _ _ _

theorem accounts_predicate (h : Builds single) : Builds (predicate single) :=
  fun _ => (accounts_expr h).bind fun _ => (quiet_expect _).bind fun _ => carries_pure rfl rfl

theorem accounts_predicates (h : Builds single) : Accounts (predicates single) (.all .one) :=
  accounts_many (accounts_whenEats (accounts_predicate h))

theorem accounts_axisStep (h : Builds single) : BuildsOptional (axisStep single) := by
  refine fun t => accounts_stepTest.bind ?_
  rintro (_ | ⟨axis, test, offset⟩)
  · exact carries_pure rfl rfl
  · refine (quiet_goto _).bind fun _ => (accounts_predicates h).bind fun ps => carries_someNode ?_ ?_
    · simp
    · simp

theorem accounts_argument (h : Builds single) : Builds (argument single) := by
  refine fun t => carries_ifEat ((quiet_observe _).bind fun offset => carries_node ?_ ?_) (h t)
  · simp
  · simp

theorem accounts_argumentList (h : Builds single) : Accounts (argumentList single) (.all .one) := by
  refine fun t => carries_ifEat (carries_pure (by simp) (by simp)) ?_
  refine (accounts_separatedBy (accounts_argument h)).bind fun args => ?_
  exact (quiet_expect _).bind fun _ => carries_pure rfl rfl

theorem accounts_applications (h : Builds single) (base : Expr) (t : Stock) :
    Carries (t ++ .one base) (applications single base) fun e => t ++ .one e := by
  have hstep (state : Expr × List Expr) :
      Carries (t ++ .pair .one (.all .one) state) (applicationStep single state) fun next =>
        t ++ Sum.elim (.pair .one (.all .one)) .one next := by
    obtain ⟨base, ps⟩ := state
    have hstate : t ++ .pair .one (.all .one) (base, ps) = t ++ .one base ++ .all .one ps :=
      (Stock.append_assoc _ _ _).symm
    refine carries_ifEat ?_ (carries_ifEat ?_ ?_)
    · exact (accounts_predicate h).bind fun p => carries_pure (by simp) (by simp)
    · rw [hstate]
      refine Contract.bind (carries_filtered base ps) fun function => ?_
      refine (accounts_argumentList h).bind fun args => ?_
      have hnode : Carries (t ++ .one function ++ .all .one args)
          (node (.dynamicCall function args) function.offset) fun e => t ++ .one e :=
        carries_node (by simp) (by simp)
      exact Contract.bind hnode fun e => carries_pure (by simp) (by simp)
    · rw [hstate]
      exact Contract.bind (carries_filtered base ps) fun e => carries_pure rfl rfl
  exact Carries.of_eq (carries_iterate hstep (base, [])) (by simp) (by simp)

theorem accounts_parenthesized (h : Builds single) : Builds (parenthesized single) := by
  refine fun t => (quiet_observe _).bind fun offset => carries_ifEat (accounts_emptySequence offset t) ?_
  exact (accounts_expr h).bind fun _ => (quiet_expect _).bind fun _ => carries_pure rfl rfl

theorem accounts_functionCall? (h : Builds single) : BuildsOptional (functionCall? single) := by
  refine fun t => (quiet_peek _).bind fun _ => carries_ite (fun _ => accounts_none t) fun _ => ?_
  refine (quiet_observe _).bind fun name => carries_ite (fun _ => accounts_none t) fun _ => ?_
  refine (quiet_expect _).bind fun _ => (quiet_observe _).bind fun offset => ?_
  refine (accounts_functionName name offset).bind fun name => ?_
  refine (accounts_argumentList h).bind fun args => carries_someNode ?_ ?_
  · simp
  · simp

theorem accounts_primary (h : Builds single) : BuildsOptional (primary single) := by
  have hfunction := (accounts_inlineFunction h).some
  have hbraced {form : Expr → ExprKind Expr} (hn : ∀ e, (form e).unbound = [])
      (he : ∀ e, (form e).children = [e]) (offset : Nat) :
      Accounts (do return some (← node (form (← bracedExpr single)) offset)) (.maybe .one) := by
    refine fun t => (accounts_bracedExpr h).bind fun e => carries_someNode ?_ ?_
    · simp [-ExprKind.unbound, hn]
    · simp [-ExprKind.children, he]
  refine fun t => accounts_literal?.bind ?_
  rintro (_ | e)
  · rw [Stock.maybe_none, Stock.append_empty]
    refine carries_ifPeek ?_ (carries_ifEat ((accounts_parenthesized h).some t) ((quiet_peek _).bind ?_))
    · refine accounts_variableName.bind fun name => (quiet_observe _).bind fun offset => ?_
      exact carries_someNode (by simp) (by simp)
    intro dots
    extract_lets rest
    have hrest : Carries t (rest ()) fun found => t ++ .maybe .one found := by
      refine (accounts_directConstructor h).bind ?_
      rintro (_ | e)
      · rw [Stock.maybe_none, Stock.append_empty]
        refine (accounts_computedConstructor h).bind ?_
        rintro (_ | e)
        · rw [Stock.maybe_none, Stock.append_empty]
          refine carries_ifEat ?_ (carries_ifEat ?_ (carries_ifPeek (hfunction t) (carries_ifPeek (hfunction t)
            (carries_ifEat (accounts_namedFunctionRef.some t) (accounts_functionCall? h t)))))
          · exact (quiet_observe _).bind fun offset => hbraced (fun _ => rfl) (fun _ => rfl) offset t
          · exact (quiet_observe _).bind fun offset => hbraced (fun _ => rfl) (fun _ => rfl) offset t
        · exact carries_pure rfl rfl
      · exact carries_pure rfl rfl
    refine carries_ite (fun _ => carries_ifEat ?_ hrest) fun _ => hrest
    refine (quiet_observe _).bind fun offset => ?_
    exact carries_someNode (by simp) (by simp)
  · exact carries_pure rfl rfl

/-! ### Paths -/

theorem accounts_stepExpr (h : Builds single) : BuildsOptional (stepExpr single) := by
  refine fun t => (accounts_primary h).bind ?_
  rintro (_ | base)
  · rw [Stock.maybe_none, Stock.append_empty]
    exact accounts_axisStep h t
  · exact Contract.bind (accounts_applications h base t) fun e => carries_pure rfl rfl

theorem accounts_requiredStep (h : Builds single) : Builds (requiredStep single) := by
  refine fun t => (accounts_stepExpr h).bind ?_
  rintro (_ | step)
  · exact carries_unexpected _
  · exact carries_pure rfl rfl

theorem accounts_furtherSteps (h : Builds single) :
    Accounts (furtherSteps single) (.maybe (.all .one)) := by
  refine fun t => carries_ifEat ?_ (carries_ifEat ?_ (accounts_none t))
  · refine (quiet_observe _).bind fun offset => (accounts_descendantStep offset).bind fun descend => ?_
    exact (accounts_requiredStep h).bind fun step => carries_pure (by simp) (by simp)
  · exact (accounts_requiredStep h).bind fun step => carries_pure (by simp) (by simp)

theorem carries_relativePath (h : Builds single) (origin : PathRoot) (first : List Expr) (offset : Nat) :
    Carries (t ++ .all .one first) (relativePath single origin first offset) fun e => t ++ .one e := by
  refine (accounts_many (accounts_furtherSteps h)).bind fun more => ?_
  have hsteps : t ++ .all .one first ++ .all (.all .one) more = t ++ .all .one (first ++ more.flatten) := by
    refine Stock.eq_of ?_ ?_
    · simp
    · simp [← List.flatMap_id]
  rw [hsteps]
  have hpath : Carries (t ++ .all .one (first ++ more.flatten))
      (node (.path origin (first ++ more.flatten)) offset) fun e => t ++ .one e :=
    carries_node (by simp) (by simp)
  dsimp only
  split
  · rename_i step hone
    split
    · exact hpath
    · rw [hone]
      exact carries_pure (by simp) (by simp)
  · exact hpath

theorem accounts_pathExpr (h : Builds single) : Builds (pathExpr single) := by
  refine fun t => carries_ifEat ?_ (carries_ifEat ?_ ?_)
  · refine (quiet_observe _).bind fun offset => (accounts_descendantStep offset).bind fun descend => ?_
    refine (accounts_requiredStep h).bind fun step => ?_
    exact (carries_relativePath h _ [descend, step] offset).of_eq (by simp) (by simp)
  · refine (quiet_observe _).bind fun offset => (accounts_stepExpr h).bind ?_
    rintro (_ | step)
    · refine (quiet_goto _).bind fun _ => carries_node ?_ ?_
      · simp
      · simp
    · exact (carries_relativePath h _ [step] offset).of_eq (by simp) (by simp)
  · refine (accounts_requiredStep h).bind fun step => ?_
    exact (carries_relativePath h _ [step] step.offset).of_eq (by simp) (by simp)

end XQuerySyntax.Grammar

/-! ### Expressions

Accounts of operators and of single expressions. -/

namespace XQuerySyntax.Grammar

open XQuerySyntax.Parser

attribute [local simp] ExprKind.unbound ExprKind.children

variable {single operand : Parser Expr} {t : Stock} {offset : Nat}

/-! ### Operators -/

theorem accounts_chain (operators : OperatorTable) (h : Builds operand) :
    Builds (chain operators operand) := by
  have hstep (t : Stock) (left : Expr) :
      Carries (t ++ .one left) (chainStep operators operand left) fun next =>
        t ++ Sum.elim .one .one next := by
    refine (quiet_eatFirst _).bind ?_
    rintro (_ | op)
    · exact carries_pure rfl rfl
    · refine (quiet_observe _).bind fun offset => h.bind fun right => ?_
      have hnode : Carries (t ++ .one left ++ .one right) (node (.binary op left right) offset) fun e =>
          t ++ .one e := carries_node (by simp) (by simp)
      exact Contract.bind hnode fun e => carries_pure rfl rfl
  exact fun t => h.bind fun first => carries_iterate (hstep t) first

/-- An operator whose form takes an operand and holds names or expressions of its own. -/
theorem accounts_suffixed (operator : Rule) {form : Expr → Parser (ExprKind Expr)} (h : Builds operand)
    (hf : ∀ (left : Expr) t, Carries (t ++ .one left) (form left) fun kind => t ++ .form kind) :
    Builds (suffixed operator operand form) := by
  refine fun t => h.bind fun left => carries_ifEat ?_ (fun _ hs => hs)
  refine (quiet_observe _).bind fun offset => Contract.bind (hf left t) fun kind => ?_
  exact carries_node rfl rfl

theorem quiet_sign? : Quiet sign? := by
  refine (quiet_eatFirst _).seq ?_
  rintro (_ | op)
  · exact quiet_pure _
  · exact (quiet_observe _).seq fun _ => quiet_pure _

theorem carries_applySigns (e : Expr) (signs : List (UnaryOperator × Nat)) :
    Carries (t ++ .one e) (applySigns e signs) fun e' => t ++ .one e' := by
  induction signs with
  | nil => exact carries_pure rfl rfl
  | cons sign signs ih =>
    exact Contract.bind ih fun operand =>
      carries_node (by simp) (by simp)

theorem quiet_validationMode (name : String) (offset : Nat) : Quiet (validationMode name offset) :=
  quiet_ite (quiet_pure _) (quiet_ite (quiet_pure _) fun _ => carries_fatal _ _ _)

theorem accounts_valueExpr (h : Builds single) : Builds (valueExpr single) := by
  have hvalidate (mode : Option ValidationMode) (name : Option QName) (offset : Nat) (t : Stock) :
      Carries (t ++ .maybe (.naming QName.unbound) name) (do
        return ← node (.validate mode name (← bracedExpr single)) offset) fun e => t ++ .one e := by
    refine (accounts_bracedExpr h).bind fun e => carries_node ?_ ?_
    · simp
    · simp
  refine fun t => carries_ifEat ?_ (carries_ifEat ?_ (carries_ifEat ?_
    (carries_ifPeek (accounts_extensionExpr h t) (accounts_pathExpr h t))))
  · refine (quiet_observe _).bind fun offset => (quiet_observe _).bind fun name => ?_
    exact (accounts_elementName name offset).bind fun name => hvalidate none (some name) offset t
  · refine (quiet_observe _).bind fun offset => (quiet_observe _).bind fun name => ?_
    refine (quiet_validationMode name offset).bind fun mode => ?_
    exact (hvalidate (some mode) none offset t).of_eq (by simp) (by simp)
  · exact (quiet_observe _).bind fun offset =>
      (hvalidate none none offset t).of_eq (by simp) (by simp)

theorem accounts_unaryExpr (h : Builds single) : Builds (unaryExpr single) :=
  fun _ => (quiet_many quiet_sign?).bind fun signs => (accounts_valueExpr h).bind fun e =>
    carries_applySigns e signs

theorem accounts_castExpr (h : Builds single) : Builds (castExpr single) := by
  refine accounts_suffixed _ (accounts_unaryExpr h) fun left t => accounts_singleType.bind fun type => ?_
  exact carries_pure (by simp) (by simp)

theorem accounts_castableExpr (h : Builds single) : Builds (castableExpr single) := by
  refine accounts_suffixed _ (accounts_castExpr h) fun left t => accounts_singleType.bind fun type => ?_
  exact carries_pure (by simp) (by simp)

theorem accounts_treatExpr (h : Builds single) : Builds (treatExpr single) := by
  refine accounts_suffixed _ (accounts_castableExpr h) fun left t => ?_
  refine (accounts_sequenceType .operator).bind fun type => ?_
  exact carries_pure (by simp) (by simp)

theorem accounts_instanceOfExpr (h : Builds single) : Builds (instanceOfExpr single) := by
  refine accounts_suffixed _ (accounts_treatExpr h) fun left t => ?_
  refine (accounts_sequenceType .operator).bind fun type => ?_
  exact carries_pure (by simp) (by simp)

theorem accounts_unionExpr (h : Builds single) : Builds (unionExpr single) :=
  accounts_chain _ (accounts_chain _ (accounts_instanceOfExpr h))

theorem accounts_additiveExpr (h : Builds single) : Builds (additiveExpr single) :=
  accounts_chain _ (accounts_chain _ (accounts_unionExpr h))

theorem accounts_rangeExpr (h : Builds single) : Builds (rangeExpr single) := by
  refine accounts_suffixed _ (accounts_additiveExpr h) fun left t => ?_
  refine (accounts_additiveExpr h).bind fun right => ?_
  exact carries_pure (by simp) (by simp)

theorem accounts_ftContainsExpr (h : Builds single) : Builds (ftContainsExpr single) := by
  refine fun t => (accounts_rangeExpr h).bind fun left => (quiet_eatFirst _).bind ?_
  rintro (_ | _)
  · exact carries_pure rfl rfl
  · refine (quiet_observe _).bind fun offset => ?_
    refine (accounts_ftSelection h (accounts_additiveExpr h)).bind fun selection => ?_
    refine (accounts_whenEats (accounts_unionExpr h)).bind fun without => carries_node ?_ ?_
    · simp
    · cases without <;> simp

theorem accounts_comparisonExpr (h : Builds single) : Builds (comparisonExpr single) := by
  refine fun t => (accounts_ftContainsExpr h).bind fun left => (quiet_eatFirst _).bind ?_
  rintro (_ | op)
  · exact carries_pure rfl rfl
  · refine (quiet_observe _).bind fun offset => (accounts_ftContainsExpr h).bind fun right => ?_
    exact carries_node (by simp) (by simp)

theorem accounts_orExpr (h : Builds single) : Builds (orExpr single) :=
  accounts_chain _ (accounts_chain _ (accounts_comparisonExpr h))

/-! ### Expressions that begin with a keyword -/

theorem accounts_errorTest : Accounts errorTest (.naming NameTest.unbound) := by
  refine fun t => (accounts_nameTest none).bind ?_
  rintro (_ | test)
  · exact carries_unexpected _
  · exact carries_pure rfl rfl

theorem accounts_catchTests :
    Accounts catchTests
      (.maybe (.pair (.all (.naming NameTest.unbound)) (.all (.naming QName.unbound)))) := by
  refine fun t => carries_ifEat ?_ (carries_ifEat ?_ (accounts_none t))
  · refine accounts_errorTest.bind fun test => ?_
    refine (accounts_many (accounts_whenEats accounts_variableName)).bind fun names => ?_
    exact (quiet_expect _).bind fun _ => carries_pure (by simp) (by simp)
  · exact (accounts_separatedBy accounts_errorTest).bind fun tests => carries_pure (by simp) (by simp)

theorem accounts_quantified (h : Builds single) (quantifier : Quantifier) (offset : Nat) :
    Builds (quantified single quantifier offset) := by
  have hbinding : Accounts (quantifiedBinding single)
      (.both VariableBinding.unbound VariableBinding.children) := by
    refine fun t => accounts_typedVariable.bind fun ⟨name, type⟩ => (quiet_expect _).bind fun _ => ?_
    refine h.bind fun value => carries_pure ?_ ?_
    · simp [VariableBinding.unbound]
    · simp [VariableBinding.children]
  refine fun t => (accounts_separatedBy hbinding).bind fun bindings => (quiet_expect _).bind fun _ => ?_
  exact h.bind fun satisfies => carries_node (by simp) (by simp)

theorem accounts_conditional (h : Builds single) (offset : Nat) : Builds (conditional single offset) := by
  refine fun t => (accounts_parenthesizedExpr h).bind fun condition => (quiet_expect _).bind fun _ => ?_
  refine h.bind fun yes => (quiet_expect _).bind fun _ => h.bind fun no => ?_
  exact carries_node (by simp) (by simp)

theorem accounts_switchCase (h : Builds single) :
    Accounts (switchCase single) (.maybe (.both (fun _ => []) SwitchCase.children)) := by
  refine fun t => (accounts_many (accounts_whenEats h)).bind ?_
  rintro (_ | ⟨operand, operands⟩)
  · exact carries_pure rfl rfl
  · refine (quiet_expect _).bind fun _ => h.bind fun result => carries_pure ?_ ?_
    · simp
    · simp [SwitchCase.children]

theorem accounts_switchExpr (h : Builds single) (offset : Nat) : Builds (switchExpr single offset) := by
  refine fun t => (accounts_parenthesizedExpr h).bind fun operand => ?_
  refine (accounts_many (accounts_switchCase h)).bind fun cases => ?_
  refine carries_ite (fun _ => carries_unexpected_bind _) fun _ => (quiet_expect _).bind fun _ => ?_
  exact h.bind fun default => carries_node (by simp) (by simp)

theorem accounts_caseVariable : Accounts caseVariable (.maybe (.naming QName.unbound)) := by
  refine fun t => carries_ifPeek (accounts_variableName.bind fun _ => ?_) (accounts_none t)
  exact (quiet_expect _).bind fun _ => carries_pure rfl rfl

theorem accounts_typeswitchCase (h : Builds single) :
    Accounts (typeswitchCase single)
      (.maybe (.both TypeswitchCase.unbound TypeswitchCase.children)) := by
  refine accounts_whenEats fun t => accounts_caseVariable.bind fun name => ?_
  refine (accounts_separatedBy (accounts_sequenceType .operator)).bind fun types => ?_
  refine (quiet_expect _).bind fun _ => h.bind fun result => carries_pure ?_ ?_
  · simp [TypeswitchCase.unbound]
  · simp [TypeswitchCase.children]

theorem accounts_defaultVariable : Accounts defaultVariable (.maybe (.naming QName.unbound)) := by
  refine fun t => carries_ifEat (accounts_variableName.bind fun _ => ?_) ?_
  · exact (quiet_expect _).bind fun _ => carries_pure rfl rfl
  · exact (quiet_expect _).bind fun _ => accounts_none t

theorem accounts_typeswitchExpr (h : Builds single) (offset : Nat) :
    Builds (typeswitchExpr single offset) := by
  refine fun t => (accounts_parenthesizedExpr h).bind fun operand => ?_
  refine (accounts_many (accounts_typeswitchCase h)).bind fun cases => ?_
  refine carries_ite (fun _ => carries_unexpected_bind _) fun _ => accounts_defaultVariable.bind fun name => ?_
  exact h.bind fun default => carries_node (by simp) (by simp)

theorem accounts_catchClause (h : Builds single) :
    Accounts (catchClause single) (.maybe (.both CatchClause.unbound CatchClause.children)) := by
  refine fun t => accounts_catchTests.bind ?_
  rintro (_ | ⟨tests, names⟩)
  · exact carries_pure rfl rfl
  · refine (accounts_enclosedExpr h).bind fun body => carries_pure ?_ ?_
    · simp [CatchClause.unbound]
    · simp [CatchClause.children]

theorem accounts_tryCatch (h : Builds single) (offset : Nat) : Builds (tryCatch single offset) := by
  refine fun t => (accounts_enclosedExpr h).bind fun body => ?_
  refine (accounts_many (accounts_catchClause h)).bind fun catches => ?_
  refine carries_ite (fun _ => carries_unexpected_bind _) fun _ => ?_
  exact carries_node (by simp) (by simp)

/-! ### Single expressions -/

theorem accounts_singleOf (h : Builds single) : Builds (singleOf single) := by
  refine fun t => (accounts_flwor h).bind ?_
  rintro (_ | e)
  · rw [Stock.maybe_none, Stock.append_empty]
    refine carries_ifEat ?_ (carries_ifEat ?_ (carries_ifEat ?_ (carries_ifEat ?_ (carries_ifEat ?_
      (carries_ifEat ?_ ((accounts_updateExpr h).bind ?_))))))
    · exact (quiet_observe _).bind fun offset => accounts_quantified h _ offset t
    · exact (quiet_observe _).bind fun offset => accounts_quantified h _ offset t
    · exact (quiet_observe _).bind fun offset => accounts_switchExpr h offset t
    · exact (quiet_observe _).bind fun offset => accounts_typeswitchExpr h offset t
    · exact (quiet_observe _).bind fun offset => accounts_conditional h offset t
    · exact (quiet_observe _).bind fun offset => accounts_tryCatch h offset t
    · rintro (_ | e)
      · rw [Stock.maybe_none, Stock.append_empty]
        refine (accounts_scriptingExpr h).bind ?_
        rintro (_ | e)
        · rw [Stock.maybe_none, Stock.append_empty]
          exact accounts_orExpr h t
        · exact carries_pure rfl rfl
      · exact carries_pure rfl rfl
  · exact carries_pure rfl rfl

theorem accounts_exprSingle : Builds exprSingle := by
  have hwithin (n : Nat) : Builds (singleWithin n) := by
    induction n with
    | zero => exact fun _ => carries_exhausted
    | succ n ih => exact fun t => carries_nested (accounts_singleOf ih t)
  exact fun t => quiet_get.bind fun _ => hwithin _ t

end XQuerySyntax.Grammar
