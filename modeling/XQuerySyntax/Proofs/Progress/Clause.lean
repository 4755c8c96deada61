import XQuerySyntax.Grammar.Flwor
import XQuerySyntax.Grammar.Function
import XQuerySyntax.Grammar.Update
import XQuerySyntax.Proofs.Progress.Type
import XQuerySyntax.Grammar.FullText

/-! Sequences, clauses, updates, statements and functions come to an end. What begins with a word uses that
word up, so it may hold single expressions that are known to end further on only. -/

namespace XQuerySyntax.Progress

open XQuerySyntax.Parser XQuerySyntax.Grammar

variable {n c : Nat} {single : Parser Expr}

/-! ### Expressions with commas and in braces -/

theorem gains_expr (h : Gains n c single) : Gains n c (expr single) := by
  refine h.seq fun first => (stays_peek _).seq fun _ => uses_ite (stays_pure _) ?_
  exact (stays_many (finds_whenEats (by rfl) h.stays.up.up)).seq fun _ => stays_node _ _

theorem stays_exprUpToBrace? (h : Gains n c single) : Stays n c (exprUpToBrace? single) := by
  refine stays_ifEat (stays_pure _) ((gains_expr h).stays.seq fun e => ?_)
  exact (stays_expect _).seq fun _ => stays_pure _

theorem stays_exprUpToBrace (h : Gains n c single) (offset : Nat) : Stays n c (exprUpToBrace single offset) := by
  refine (stays_exprUpToBrace? h).seq ?_
  rintro (_ | e)
  · exact stays_node _ _
  · exact stays_pure _

theorem stays_enclosedExpr (h : Gains n c single) : Stays n c (enclosedExpr single) :=
  (stays_expect _).seq fun _ => (stays_observe _).seq fun offset => stays_exprUpToBrace h offset

theorem stays_bracedExpr (h : Gains n c single) : Stays n c (bracedExpr single) := by
  refine (stays_expect _).seq fun _ => (gains_expr h).stays.seq fun e => ?_
  exact (stays_expect _).seq fun _ => stays_pure _

theorem stays_optionalExpr (h : Gains n c single) : Stays n c (optionalExpr single) :=
  (stays_expect _).seq fun _ => stays_exprUpToBrace? h

theorem stays_parenthesizedExpr (h : Gains n c single) : Stays n c (parenthesizedExpr single) := by
  refine (stays_expect _).seq fun _ => (gains_expr h).stays.seq fun e => ?_
  exact (stays_expect _).seq fun _ => stays_pure _

theorem finds_pragma? : Finds n c pragma? := by
  refine finds_whenEats (by rfl) ((stays_observe _).seq fun offset => (stays_observe _).seq fun name => ?_)
  refine (stays_plainName name offset).seq fun _ => (stays_lexeme (scanDelimited_within _ _)).seq fun _ => ?_
  exact stays_pure _

theorem stays_pragmas : Stays n c pragmas := by
  refine (stays_many finds_pragma?).seq ?_
  rintro (_ | ⟨⟨first, offset⟩, rest⟩)
  · exact (stays_observe _).seq fun _ => stays_pure _
  · exact stays_pure _

/-- The opening brace is in front of the expression. -/
theorem gains_extensionExpr (h : Gains n (c + 1) single) : Gains n c (extensionExpr single) := by
  have hoptional : Gains n c (optionalExpr single) :=
    (gains_expect (by rfl)).seq fun _ => stays_exprUpToBrace? h
  refine fun b hb => Contract.bind (stays_pragmas b hb) fun ⟨ps, offset⟩ => ?_
  exact (hoptional.seq fun _ => stays_node _ _) b hb

/-! ### Clauses -/

theorem stays_positionalVariable (name : QName) : Stays n c (positionalVariable name) := by
  refine (stays_observe _).seq fun _ => gains_variableName.stays.seq fun _ => uses_ite ?_ (stays_pure _)
  exact (stays_record _ _ _).seq fun _ => stays_pure _

theorem stays_forBinding (h : Gains n c single) : Stays n c (forBinding single) := by
  refine (stays_observe _).seq fun _ => stays_typedVariable.seq fun ⟨name, _⟩ => ?_
  refine (stays_eat _).seq fun _ => (stays_whenEats (stays_positionalVariable name)).seq fun _ => ?_
  refine (stays_whenEats gains_variableName.stays).seq fun _ => (stays_expect _).seq fun _ => ?_
  exact h.stays.seq fun _ => stays_pure _

theorem stays_letBinding (h : Gains n c single) (score : Bool) : Stays n c (letBinding single score) := by
  refine (stays_observe _).seq fun offset => ?_
  have hend (binding : QName × Option SequenceType) : Stays n c (do
      expect Terminal.assign
      let value ← single
      return LetBinding.mk binding.1 binding.2 score value offset) :=
    (stays_expect _).seq fun _ => h.stays.seq fun _ => stays_pure _
  refine uses_ite ?_ (stays_typedVariable.seq hend)
  exact (stays_map _ gains_variableName.stays).seq hend

theorem stays_letBindings (h : Gains n c single) (score : Bool) : Stays n c (letBindings single score) := by
  refine (stays_letBinding h score).seq fun first => ?_
  exact (stays_many (finds_whenEats (by rfl) (stays_letBinding h.up false))).seq fun _ => stays_pure _

theorem stays_windowCondition (h : Gains n c single) (only : Bool) :
    Stays n c (windowCondition single only) := by
  have hvariable (r : Rule) : Stays n c (whenEats r variableName) := stays_whenEats gains_variableName.stays
  have hend (current : Option QName) : Stays n c (do
      let positional ← whenEats Terminal.windowAt variableName
      let previous ← whenEats Terminal.windowPrevious variableName
      let next ← whenEats Terminal.windowNext variableName
      expect Terminal.whenCondition
      let condition ← single
      return WindowCondition.mk only ⟨current, positional, previous, next⟩ condition) := by
    refine (hvariable _).seq fun _ => (hvariable _).seq fun _ => (hvariable _).seq fun _ => ?_
    exact (stays_expect _).seq fun _ => h.stays.seq fun _ => stays_pure _
  refine uses_ifPeek ?_ ?_
  · exact (stays_map _ gains_variableName.stays).seq hend
  · exact (stays_pure _).seq hend

theorem stays_windowEnd (h : Gains n c single) (kind : WindowKind) : Stays n c (windowEnd single kind) := by
  have hsome (only : Bool) : Stays n c (do return some (← windowCondition single only)) :=
    (stays_windowCondition h only).seq fun _ => stays_pure _
  refine stays_ifEat (hsome true) (stays_ifEat (hsome false) ?_)
  exact uses_ite ((stays_unexpected _).seq fun _ => stays_pure _) (stays_pure _)

theorem stays_windowClause (h : Gains n c single) (kind : WindowKind) :
    Stays n c (windowClause single kind) := by
  refine (stays_observe _).seq fun offset => stays_typedVariable.seq fun ⟨name, _⟩ => ?_
  refine (stays_expect _).seq fun _ => h.stays.seq fun source => ?_
  refine (stays_expect _).seq fun _ => (stays_windowCondition h false).seq fun first => ?_
  refine (stays_windowEnd h kind).seq fun last => ?_
  exact (still_forIn (fun n => still_record _ _ _) _).stays.seq fun _ => stays_pure _

theorem finds_initialClause (h : Gains n (c + 1) single) : Finds n c (initialClause single) := by
  have hwindow (kind : WindowKind) : Stays n (c + 1) (do return some (← windowClause single kind)) :=
    (stays_windowClause h kind).seq fun _ => stays_pure _
  have hlet (score : Bool) : Stays n (c + 1) (do return some (← letBindings single score)) :=
    (stays_letBindings h score).seq fun _ => stays_pure _
  refine uses_ifEat (by rfl) (hwindow _) (uses_ifEat (by rfl) (hwindow _) (uses_ifEat (by rfl) ?_
    (uses_ifEat (by rfl) (hlet _) (uses_ifEat (by rfl) (hlet _) finds_none))))
  exact (stays_separatedBy (by rfl) (stays_forBinding h)).seq fun _ => stays_pure _

theorem finds_clause (h : Gains n (c + 1) single) : Finds n c (clause single) := by
  refine (finds_initialClause h).seq ?_ fun _ => stays_pure _
  refine uses_ifEat (by rfl) (h.stays.seq fun _ => stays_pure _) (uses_ifEat (by rfl) ?_ finds_none)
  exact gains_variableName.stays.seq fun _ => stays_pure _

theorem stays_collation : Stays n c collation := stays_whenEats (stays_observe _)

theorem stays_groupingSpec (h : Gains n c single) (bound : List ExpandedName) :
    Stays n c (groupingSpec single bound) := by
  refine (stays_observe _).seq fun _ => gains_variableName.stays.seq fun name => ?_
  refine (stays_whenEats h.stays).seq fun value => ?_
  have hend : Stays n c (do return GroupingSpec.mk name value (← collation)) :=
    stays_collation.seq fun _ => stays_pure _
  exact uses_ite ((stays_record _ _ _).seq fun _ => hend) hend

theorem stays_orderSpec (h : Gains n c single) : Stays n c (orderSpec single) := by
  refine h.stays.seq fun key => (stays_eatFirst _).seq fun _ => (stays_eatFirst _).seq fun _ => ?_
  exact stays_collation.seq fun _ => stays_pure _

theorem stays_ordering (h : Gains n c single) : Stays n c (ordering single) := by
  refine (stays_eatFirst _).seq ?_
  rintro (_ | stable)
  · exact stays_pure _
  · exact (stays_separatedBy (by rfl) (stays_orderSpec h)).seq fun _ => stays_pure _

theorem finds_postGroupClause (h : Gains n (c + 1) single) : Finds n c (postGroupClause single) := by
  refine (finds_clause h).seq ?_ fun _ => stays_pure _
  refine uses_ifEat (by rfl) ((stays_observe _).seq fun _ => ?_) finds_none
  exact (stays_fatal (by decide) _ _).seq fun _ => stays_pure _

theorem finds_flwor (h : Gains n (c + 1) single) : Finds n c (flwor single) := by
  refine (stays_observe _).seq fun offset => (finds_initialClause h).seq finds_none fun first => ?_
  refine (stays_many (finds_clause h.up)).seq fun more => ?_
  cases Clause.splitCondition (first :: more) with | mk clauses condition
  have hend (groupBy : List (GroupingSpec Expr)) (postGroup : List (Clause Expr)) : Stays n (c + 1) (do
      let order ← ordering single
      expect Terminal.returnClause
      let result ← single
      return some (← node (.flwor
        ⟨clauses, condition, groupBy, postGroup, order.1, order.2, result⟩) offset)) := by
    refine (stays_ordering h).seq fun order => (stays_expect _).seq fun _ => h.stays.seq fun result => ?_
    exact (stays_node _ _).seq fun _ => stays_pure _
  refine (stays_eat _).seq ?_
  rintro (_ | _)
  · exact hend [] []
  · refine (stays_separatedBy (by rfl) (stays_groupingSpec h _)).seq fun groupBy => ?_
    exact (stays_many (finds_postGroupClause h.up)).seq fun postGroup => hend groupBy postGroup

/-! ### Updates -/

theorem stays_insertPosition : Stays n c insertPosition := by
  refine (stays_eatFirst _).seq ?_
  rintro (_ | position)
  · exact uses_unexpected _
  · exact stays_pure _

theorem stays_replace (h : Gains n c single) (valueOf : Bool) : Stays n c (replace single valueOf) := by
  refine h.stays.seq fun target => (stays_expect _).seq fun _ => ?_
  exact h.stays.seq fun _ => stays_pure _

theorem stays_copyBinding (h : Gains n c single) : Stays n c (copyBinding single) := by
  refine gains_variableName.stays.seq fun _ => (stays_expect _).seq fun _ => ?_
  exact h.stays.seq fun _ => stays_pure _

theorem stays_transform (h : Gains n c single) : Stays n c (transform single) := by
  refine (stays_separatedBy (by rfl) (stays_copyBinding h)).seq fun bindings => ?_
  refine (stays_expect _).seq fun _ => h.stays.seq fun modify => ?_
  exact (stays_expect _).seq fun _ => h.stays.seq fun _ => stays_pure _

theorem finds_updateKind (h : Gains n (c + 1) single) : Finds n c (updateKind single) := by
  refine uses_ifEatFirst (by decide) ?_ (uses_ifEatFirst (by decide) ?_
    (uses_ifEat (by rfl) ?_ (uses_ifEat (by rfl) ?_ (uses_ifEat (by rfl) ?_
    (finds_whenEats (by rfl) (stays_transform h))))))
  · refine h.stays.seq fun source => stays_insertPosition.seq fun position => ?_
    exact h.stays.seq fun _ => stays_pure _
  · exact h.stays.seq fun _ => stays_pure _
  · exact (stays_replace h true).seq fun _ => stays_pure _
  · exact (stays_replace h false).seq fun _ => stays_pure _
  · refine h.stays.seq fun target => (stays_expect _).seq fun _ => ?_
    exact h.stays.seq fun _ => stays_pure _

theorem finds_form {p : Parser (Option (ExprKind Expr))} (h : Finds n c p) : Finds n c (do
    let offset ← nextOffset
    match ← p with
    | none => return none
    | some kind => return some (← node kind offset)) := by
  refine (stays_observe _).seq fun offset => h.seq finds_none fun kind => ?_
  exact (stays_node kind offset).seq fun _ => stays_pure _

theorem finds_updateExpr (h : Gains n (c + 1) single) : Finds n c (updateExpr single) :=
  finds_form (finds_updateKind h)

/-! ### Statements -/

theorem stays_blockVariable (h : Gains n c single) : Stays n c (blockVariable single) := by
  refine stays_typedVariable.seq fun ⟨_, _⟩ => (stays_whenEats h.stays).seq fun value => ?_
  exact stays_pure _

theorem finds_blockDeclaration (h : Gains n (c + 1) single) : Finds n c (blockDeclaration single) := by
  refine finds_whenEats (by rfl) ((stays_separatedBy (by rfl) (stays_blockVariable h)).seq fun declared => ?_)
  exact (stays_expect _).seq fun _ => stays_pure _

/-- A statement uses text up, whether its separator is there or not. -/
theorem rounds_blockStatement (h : Gains n c single) (body : List Expr) :
    Rounds n c (blockStatement single body) := by
  refine uses_ifEat (by rfl) (stays_pure _) ((gains_expr h).seq fun e => ?_)
  exact stays_ifEat (stays_pure _) ((stays_expect _).seq fun _ => stays_pure _)

theorem stays_blockBody (h : Gains n c single) (offset : Nat) : Stays n c (blockBody single offset) := by
  refine (stays_many (finds_blockDeclaration h.up)).seq fun declarations => ?_
  exact (stays_iterate (rounds_blockStatement h) _).seq fun body => stays_node _ _

theorem finds_statementKind (h : Gains n (c + 1) single) : Finds n c (statementKind single) := by
  refine uses_ifEat (by rfl) ?_ (uses_ifEatFirst (by decide) ?_ (uses_ifEat (by rfl) (stays_pure _)
    (uses_ifEat (by rfl) (stays_pure _) (uses_ifEat (by rfl) ?_ (uses_ifEat (by rfl) ?_ finds_none)))))
  · refine (stays_parenthesizedExpr h).seq fun condition => (stays_goto _).seq fun _ => ?_
    exact h.stays.seq fun _ => stays_pure _
  · exact h.stays.seq fun _ => stays_pure _
  · refine gains_variableName.stays.seq fun name => (stays_expect _).seq fun _ => ?_
    exact h.stays.seq fun _ => stays_pure _
  · refine (stays_observe _).seq fun offset => (stays_observe _).seq fun name => ?_
    refine (stays_plainName name offset).seq fun _ => ?_
    exact h.stays.seq fun _ => stays_pure _

theorem finds_scriptingExpr (h : Gains n (c + 1) single) : Finds n c (scriptingExpr single) := by
  refine (stays_observe _).seq fun offset => uses_ifEat (by rfl) ?_ ?_
  · exact (stays_expect _).seq fun _ => (stays_blockBody h offset).seq fun _ => stays_pure _
  · refine (finds_statementKind h).seq finds_none fun kind => ?_
    exact (stays_node kind offset).seq fun _ => stays_pure _

theorem rounds_queryStatement (h : Gains n c single) (body : List Expr) :
    Rounds n c (queryStatement single body) := by
  refine stays_atEnd.seq fun _ => uses_ite (uses_pure rfl) ((gains_expr h).seq fun e => ?_)
  exact stays_ifEat (stays_pure _) (stays_pure _)

theorem stays_queryBody (h : Gains n c single) : Stays n c (queryBody single) := by
  refine (stays_observe _).seq fun offset => (gains_expr h).stays.seq fun first => ?_
  refine (stays_eat _).seq fun _ => uses_ite (stays_pure _) ?_
  exact (stays_iterate (rounds_queryStatement h) _).seq fun body => stays_node _ _

/-! ### Functions -/

theorem stays_annotationLiteral : Stays n c annotationLiteral :=
  stays_ifEat ((stays_observe _).seq fun _ => stays_pure _)
    (stays_ifEat ((stays_observe _).seq fun _ => stays_pure _) (uses_unexpected _))

theorem stays_annotationLiterals : Stays n c annotationLiterals := by
  refine stays_ifEat ((stays_separatedBy (by rfl) stays_annotationLiteral).seq fun _ => ?_) (stays_pure _)
  exact (stays_expect _).seq fun _ => stays_pure _

theorem finds_annotation? : Finds n c annotation? := by
  refine finds_whenEats (by rfl) ((stays_observe _).seq fun offset => (stays_observe _).seq fun name => ?_)
  refine (still_resolveName name _ offset).stays.seq fun _ => ?_
  exact stays_annotationLiterals.seq fun _ => stays_pure _

theorem stays_annotationList : Stays n c annotationList := by
  refine stays_iterate (fun annotations => finds_annotation?.seq (uses_pure rfl) ?_) _
  rintro ⟨a, offset⟩
  exact uses_ite ((stays_record _ _ _).seq fun _ => stays_pure _) (stays_pure _)

theorem stays_declaredType : Stays n c declaredType := stays_whenEats (stays_sequenceType _)

theorem stays_param (params : List Param) : Stays n c (param params) := by
  refine (stays_expect _).seq fun _ => (stays_observe _).seq fun offset => ?_
  refine (stays_observe _).seq fun name => (stays_plainName name offset).seq fun name => ?_
  have hend : Stays n c (do return Param.mk name (← declaredType)) :=
    stays_declaredType.seq fun _ => stays_pure _
  exact uses_ite ((stays_record _ _ _).seq fun _ => hend) hend

theorem stays_paramList : Stays n c paramList := by
  refine stays_ifEat (stays_pure _) ((stays_iterate (fun params => ?_) _).seq fun params => ?_)
  · exact (stays_param params).seq fun p => uses_ifEat (by rfl) (stays_pure _) (uses_pure rfl)
  · exact (stays_expect _).seq fun _ => stays_pure _

theorem stays_functionBody (h : Gains n c single) (statements : Bool) (offset : Nat) :
    Stays n c (functionBody single statements offset) :=
  uses_ite (stays_blockBody h offset) (stays_exprUpToBrace h offset)

theorem gains_inlineFunction (h : Gains n (c + 1) single) : Gains n c (inlineFunction single) := by
  refine (stays_observe _).seq fun offset => stays_annotationList.seq fun annotations => ?_
  refine (gains_expect (by rfl)).seq fun _ => (stays_expect _).seq fun _ => stays_paramList.seq fun params => ?_
  refine stays_declaredType.seq fun type => (stays_expect _).seq fun _ => (stays_observe _).seq fun place => ?_
  exact (stays_functionBody h false place).seq fun _ => stays_node _ _

end XQuerySyntax.Progress

/-! ### Full-text selections

A selection holds others behind a parenthesis or a brace only. -/

namespace XQuerySyntax.Progress

open XQuerySyntax.Parser XQuerySyntax.Grammar

variable {n c : Nat} {single additive : Parser Expr} {selection : Parser (FtSelection Expr)}

/-! ### Conditions and words -/

theorem stays_ftUnit : Stays n c ftUnit := by
  refine (stays_eatFirst _).seq ?_
  rintro (_ | unit)
  · exact uses_unexpected _
  · exact stays_pure _

theorem stays_ftBigUnit : Stays n c ftBigUnit := by
  refine (stays_eatFirst _).seq ?_
  rintro (_ | unit)
  · exact uses_unexpected _
  · exact stays_pure _

theorem stays_ftAnyAll : Stays n c ftAnyAll := (stays_eatFirst _).seq fun _ => stays_pure _

theorem stays_ftRange (h : Gains n c additive) : Stays n c (ftRange additive) := by
  have hone (form : Expr → FtRange Expr) : Stays n c (do return form (← additive)) :=
    h.stays.seq fun _ => stays_pure _
  refine stays_ifEat (hone _) (stays_ifEat (hone _) (stays_ifEat (hone _) (stays_ifEat ?_ (uses_unexpected _))))
  refine h.stays.seq fun low => (stays_expect _).seq fun _ => ?_
  exact h.stays.seq fun _ => stays_pure _

theorem finds_ftPosFilter (h : Gains n (c + 1) additive) : Finds n c (ftPosFilter additive) := by
  refine uses_ifEat (by rfl) (stays_pure _) (uses_ifEat (by rfl) ?_ (uses_ifEat (by rfl) ?_
    (uses_ifEat (by rfl) ?_ (uses_ifEat (by rfl) ?_ (finds_eatFirst (by decide))))))
  · exact h.stays.seq fun _ => stays_ftUnit.seq fun _ => stays_pure _
  · exact (stays_ftRange h).seq fun _ => stays_ftUnit.seq fun _ => stays_pure _
  · exact stays_ftBigUnit.seq fun _ => stays_pure _
  · exact stays_ftBigUnit.seq fun _ => stays_pure _

theorem stays_ftTimes (h : Gains n c additive) : Stays n c (ftTimes additive) :=
  stays_whenEats ((stays_ftRange h).seq fun _ => (stays_expect _).seq fun _ => stays_pure _)

theorem stays_ftWords (hs : Gains n c single) (ha : Gains n c additive) :
    Stays n c (ftWords single additive) := by
  refine stays_ifEat ?_ (stays_ifEat ?_ (uses_unexpected _))
  · refine (stays_observe _).seq fun text => stays_ftAnyAll.seq fun mode => ?_
    exact (stays_ftTimes ha).seq fun _ => stays_pure _
  · refine (gains_expr hs).stays.seq fun e => (stays_expect _).seq fun _ => stays_ftAnyAll.seq fun mode => ?_
    exact (stays_ftTimes ha).seq fun _ => stays_pure _

/-! ### Selections -/

theorem stays_ftPrimary (hs : Gains n c single) (ha : Gains n c additive) (h : Stays n (c + 1) selection) :
    Stays n c (ftPrimary single additive selection) := by
  refine uses_ifPeek ?_ (uses_ifEat (by rfl) ?_ (stays_ftWords hs ha))
  · refine stays_pragmas.seq fun ⟨ps, _⟩ => (gains_expect (by rfl)).seq fun _ => ?_
    refine stays_ifEat (stays_pure _) (h.seq fun _ => ?_)
    exact (stays_expect _).seq fun _ => stays_pure _
  · exact h.seq fun _ => (stays_expect _).seq fun _ => stays_pure _

theorem stays_ftPrimaryWithOptions (hs : Gains n c single) (ha : Gains n c additive)
    (h : Stays n (c + 1) selection) : Stays n c (ftPrimaryWithOptions single additive selection) := by
  refine (stays_ftPrimary hs ha h).seq fun primary => stays_matchOptions.seq fun options => ?_
  refine (stays_whenEats (stays_bracedExpr hs)).seq fun weight => ?_
  exact uses_ite (stays_pure _) (stays_pure _)

theorem stays_ftUnaryNot (hs : Gains n c single) (ha : Gains n c additive) (h : Stays n (c + 1) selection) :
    Stays n c (ftUnaryNot single additive selection) := by
  have hprimary := stays_ftPrimaryWithOptions hs ha h
  exact stays_ifEat (hprimary.seq fun _ => stays_pure _) hprimary

theorem stays_ftOr (hs : Gains n c single) (ha : Gains n c additive) (h : Stays n (c + 1) selection) :
    Stays n c (ftOr single additive selection) := by
  have hmildNot : Stays n c (ftMildNot single additive selection) :=
    stays_map _ (stays_separatedBy (by rfl) (stays_ftUnaryNot hs ha h))
  have hand : Stays n c (ftAnd single additive selection) := stays_map _ (stays_separatedBy (by rfl) hmildNot)
  exact stays_map _ (stays_separatedBy (by rfl) hand)

theorem stays_ftFiltered (hs : Gains n c single) (ha : Gains n c additive) (h : Stays n (c + 1) selection) :
    Stays n c (ftFiltered single additive selection) := by
  refine (stays_ftOr hs ha h).seq fun inner => (stays_many (finds_ftPosFilter ha.up)).seq ?_
  rintro (_ | ⟨first, rest⟩)
  · exact stays_pure _
  · exact stays_pure _

theorem stays_ftSelectionWithin {steps : Nat} (hs : Gains n c single) (ha : Gains n c additive)
    (hsteps : n < c + steps) : Stays n c (ftSelectionWithin single additive steps) := by
  induction steps generalizing c with
  | zero => exact uses_of_lt hsteps
  | succ steps ih =>
    have hinner := ih hs.up ha.up (by omega)
    exact uses_nested (stays_ftFiltered hs ha hinner)

theorem stays_ftSelection (hs : Gains n c single) (ha : Gains n c additive) :
    Stays n c (ftSelection single additive) := uses_steps fun _ => stays_ftSelectionWithin hs ha

end XQuerySyntax.Progress
