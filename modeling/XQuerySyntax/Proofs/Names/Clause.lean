import XQuerySyntax.Grammar.Flwor
import XQuerySyntax.Grammar.Function
import XQuerySyntax.Grammar.Update
import XQuerySyntax.Proofs.Names.Type
import XQuerySyntax.Proofs.Tree.Clause

/-! Accounts of sequences, clauses, updates, statements and functions. -/

namespace XQuerySyntax.Grammar

open XQuerySyntax.Parser

attribute [local simp] ExprKind.unbound ExprKind.children

variable {single : Parser Expr} {t : Stock} {offset : Nat}

/-! ### Expressions with commas and in braces -/

theorem accounts_expr (h : Builds single) : Builds (expr single) := by
  refine fun t => h.bind fun first => (quiet_peek _).bind fun comma => ?_
  refine carries_ite (fun _ => carries_pure rfl rfl) fun _ => ?_
  refine (accounts_many (accounts_whenEats h)).bind fun rest => carries_node ?_ ?_
  · simp
  · simp

theorem accounts_exprUpToBrace? (h : Builds single) : BuildsOptional (exprUpToBrace? single) := by
  refine fun t => carries_ifEat (accounts_none t) ((accounts_expr h).bind fun e => ?_)
  exact (quiet_expect _).bind fun _ => carries_pure rfl rfl

theorem accounts_emptySequence (offset : Nat) : Builds (node (.sequence []) offset) := by
  refine fun t => carries_node ?_ ?_
  · simp
  · simp

theorem accounts_exprUpToBrace (h : Builds single) (offset : Nat) :
    Builds (exprUpToBrace single offset) := by
  refine fun t => (accounts_exprUpToBrace? h).bind ?_
  rintro (_ | e)
  · rw [Stock.maybe_none, Stock.append_empty]
    exact accounts_emptySequence offset t
  · exact carries_pure rfl rfl

theorem accounts_enclosedExpr (h : Builds single) : Builds (enclosedExpr single) :=
  fun t => (quiet_expect _).bind fun _ => (quiet_observe _).bind fun _ => accounts_exprUpToBrace h _ t

theorem accounts_bracedExpr (h : Builds single) : Builds (bracedExpr single) := by
  refine fun t => (quiet_expect _).bind fun _ => (accounts_expr h).bind fun e => ?_
  exact (quiet_expect _).bind fun _ => carries_pure rfl rfl

theorem accounts_optionalExpr (h : Builds single) : BuildsOptional (optionalExpr single) :=
  fun t => (quiet_expect _).bind fun _ => accounts_exprUpToBrace? h t

theorem accounts_parenthesizedExpr (h : Builds single) : Builds (parenthesizedExpr single) := by
  refine fun t => (quiet_expect _).bind fun _ => (accounts_expr h).bind fun e => ?_
  exact (quiet_expect _).bind fun _ => carries_pure rfl rfl

theorem accounts_pragmas : Accounts pragmas fun found => .all (.naming Pragma.unbound) found.1 := by
  have hpragma : Accounts pragma? (.maybe fun found => .naming Pragma.unbound found.1) := by
    refine accounts_whenEats fun t => (quiet_observe _).bind fun offset => ?_
    refine (quiet_observe _).bind fun name => (accounts_plainName name offset).bind fun _ => ?_
    exact (quiet_scan _).bind fun _ => carries_pure rfl rfl
  refine fun t => (accounts_many hpragma).bind ?_
  rintro (_ | ⟨⟨first, offset⟩, rest⟩)
  · exact (quiet_observe _).bind fun _ => carries_pure rfl rfl
  · refine carries_pure ?_ ?_
    · simp [List.flatMap_map]
    · simp

theorem accounts_extensionExpr (h : Builds single) : Builds (extensionExpr single) := by
  refine fun t => accounts_pragmas.bind fun ⟨ps, offset⟩ => ?_
  refine (accounts_optionalExpr h).bind fun e => carries_node ?_ ?_
  · simp
  · simp

/-! ### Clauses -/

theorem accounts_positionalVariable (name : QName) :
    Accounts (positionalVariable name) (.naming QName.unbound) := by
  refine fun t => (quiet_observe _).bind fun offset => accounts_variableName.bind fun positional => ?_
  refine carries_ite (fun _ => ?_) fun _ => carries_pure rfl rfl
  exact (quiet_record (by decide) _ _).bind fun _ => carries_pure rfl rfl

theorem accounts_forBinding (h : Builds single) :
    Accounts (forBinding single) (.both ForBinding.unbound fun b => [b.source]) := by
  refine fun t => (quiet_observe _).bind fun offset => accounts_typedVariable.bind fun ⟨name, type⟩ => ?_
  refine (quiet_eat _).bind fun allowingEmpty => ?_
  refine (accounts_whenEats (accounts_positionalVariable name)).bind fun positional => ?_
  refine (accounts_whenEats accounts_variableName).bind fun score => ?_
  refine (quiet_expect _).bind fun _ => h.bind fun _ => carries_pure ?_ ?_
  · simp [ForBinding.unbound]
  · simp

theorem accounts_letBinding (h : Builds single) (score : Bool) :
    Accounts (letBinding single score) (.both LetBinding.unbound fun b => [b.value]) := by
  refine fun t => (quiet_observe _).bind fun offset => ?_
  have hend (binding : QName × Option SequenceType) :
      Carries (t ++ .pair (.naming QName.unbound) (.maybe (.naming SequenceType.unbound)) binding) (do
        expect Terminal.assign
        let value ← single
        return LetBinding.mk binding.1 binding.2 score value offset)
        fun b => t ++ .both LetBinding.unbound (fun b => [b.value]) b := by
    refine (quiet_expect _).bind fun _ => h.bind fun _ => carries_pure ?_ ?_
    · simp [LetBinding.unbound]
    · simp
  refine carries_ite (fun _ => ?_) fun _ => accounts_typedVariable.bind hend
  exact (accounts_variableName.map (·, none) fun _ => Stock.append_empty _).bind hend

theorem accounts_letBindings (h : Builds single) (score : Bool) :
    Accounts (letBindings single score) (.both Clause.unbound Clause.children) := by
  refine fun t => (accounts_letBinding h score).bind fun first => ?_
  refine (accounts_many (accounts_whenEats (accounts_letBinding h false))).bind fun rest => ?_
  refine carries_pure ?_ ?_
  · simp [Clause.unbound]
  · simp [Clause.children]

theorem accounts_windowCondition (h : Builds single) (only : Bool) :
    Accounts (windowCondition single only)
      (.both WindowCondition.unbound WindowCondition.children) := by
  have hend (current : Option QName) (t : Stock) :
      Carries (t ++ .maybe (.naming QName.unbound) current) (do
        let positional ← whenEats Terminal.windowAt variableName
        let previous ← whenEats Terminal.windowPrevious variableName
        let next ← whenEats Terminal.windowNext variableName
        expect Terminal.whenCondition
        let condition ← single
        return WindowCondition.mk only ⟨current, positional, previous, next⟩ condition)
        fun w => t ++ .both WindowCondition.unbound WindowCondition.children w := by
    have hvariable (r : Rule) := accounts_whenEats (r := r) accounts_variableName
    refine (hvariable _).bind fun positional => (hvariable _).bind fun previous => ?_
    refine (hvariable _).bind fun next => (quiet_expect _).bind fun _ => h.bind fun condition => ?_
    refine carries_pure ?_ ?_
    · cases current <;> cases positional <;> cases previous <;> cases next <;>
        simp [WindowCondition.unbound, WindowVars.unbound, WindowVars.names]
    · simp [WindowCondition.children]
  refine fun t => carries_ifPeek ?_ ?_
  · exact (accounts_variableName.map some fun _ => rfl).bind fun current => hend current t
  · exact (accounts_none (f := .naming QName.unbound)).bind fun current => hend current t

theorem accounts_windowEnd (h : Builds single) (kind : WindowKind) :
    Accounts (windowEnd single kind)
      (.maybe (.both WindowCondition.unbound WindowCondition.children)) := by
  have hsome (only : Bool) := (accounts_windowCondition h only).some
  refine fun t => carries_ifEat (hsome true t) (carries_ifEat (hsome false t) ?_)
  exact carries_ite (fun _ => carries_unexpected_bind _) fun _ => accounts_none t

theorem accounts_windowClause (h : Builds single) (kind : WindowKind) :
    Accounts (windowClause single kind) (.both Clause.unbound Clause.children) := by
  refine fun t => (quiet_observe _).bind fun offset => accounts_typedVariable.bind fun ⟨name, type⟩ => ?_
  refine (quiet_expect _).bind fun _ => h.bind fun source => (quiet_expect _).bind fun _ => ?_
  refine (accounts_windowCondition h false).bind fun first => ?_
  refine (accounts_windowEnd h kind).bind fun last => ?_
  refine (quiet_forIn (fun n => quiet_record (by decide) _ _) _).bind fun _ => carries_pure ?_ ?_
  · simp [Clause.unbound, List.flatMap]
  · simp [Clause.children]

theorem accounts_initialClause (h : Builds single) :
    Accounts (initialClause single) (.maybe (.both Clause.unbound Clause.children)) := by
  refine fun t => carries_ifEat ((accounts_windowClause h _).some t)
    (carries_ifEat ((accounts_windowClause h _).some t) (carries_ifEat ?_
      (carries_ifEat ((accounts_letBindings h _).some t)
        (carries_ifEat ((accounts_letBindings h _).some t) (accounts_none t)))))
  refine (accounts_separatedBy (accounts_forBinding h)).bind fun bindings => carries_pure ?_ ?_
  · simp [Clause.unbound]
  · simp [Clause.children]

theorem accounts_clause (h : Builds single) :
    Accounts (clause single) (.maybe (.both Clause.unbound Clause.children)) := by
  refine fun t => (accounts_initialClause h).bind ?_
  rintro (_ | c)
  · rw [Stock.maybe_none, Stock.append_empty]
    refine carries_ifEat ?_ (carries_ifEat ?_ (accounts_none t))
    · refine h.bind fun condition => carries_pure ?_ ?_
      · simp [Clause.unbound]
      · simp [Clause.children]
    · refine accounts_variableName.bind fun name => carries_pure ?_ ?_
      · simp [Clause.unbound]
      · simp [Clause.children]
  · exact carries_pure rfl rfl

theorem quiet_collation : Quiet collation := quiet_whenEats (quiet_observe _)

theorem accounts_groupingSpec (h : Builds single) (bound : List ExpandedName) :
    Accounts (groupingSpec single bound) (.both GroupingSpec.unbound GroupingSpec.children) := by
  refine fun t => (quiet_observe _).bind fun offset => accounts_variableName.bind fun name => ?_
  refine (accounts_whenEats h).bind fun value => ?_
  have hend : Carries (t ++ .naming QName.unbound name ++ .maybe .one value) (do
      return GroupingSpec.mk name value (← collation))
      fun g => t ++ .both GroupingSpec.unbound GroupingSpec.children g := by
    refine quiet_collation.bind fun _ => carries_pure ?_ ?_
    · simp [GroupingSpec.unbound]
    · cases value <;> simp [GroupingSpec.children]
  exact carries_ite (fun _ => (quiet_record (by decide) _ _).bind fun _ => hend) fun _ => hend

theorem accounts_orderSpec (h : Builds single) :
    Accounts (orderSpec single) (.both (fun _ => []) fun s => [s.key]) := by
  refine fun t => h.bind fun key => (quiet_eatFirst _).bind fun direction => ?_
  exact (quiet_eatFirst _).bind fun empty => quiet_collation.bind fun _ => carries_pure rfl rfl

theorem accounts_ordering (h : Builds single) :
    Accounts (ordering single) fun found => .all (.both (fun _ => []) fun s => [s.key]) found.2 := by
  refine fun t => (quiet_eatFirst _).bind ?_
  rintro (_ | stable)
  · exact carries_pure (by simp) (by simp)
  · exact (accounts_separatedBy (accounts_orderSpec h)).bind fun keys => carries_pure rfl rfl

theorem accounts_postGroupClause (h : Builds single) :
    Accounts (postGroupClause single) (.maybe (.both Clause.unbound Clause.children)) := by
  refine fun t => (accounts_clause h).bind ?_
  rintro (_ | c)
  · rw [Stock.maybe_none, Stock.append_empty]
    refine carries_ifEat ?_ (accounts_none t)
    exact (quiet_observe _).bind fun _ => carries_fatal_bind _ _ _
  · exact carries_pure rfl rfl

theorem accounts_flwor (h : Builds single) : BuildsOptional (flwor single) := by
  refine fun t => (quiet_observe _).bind fun offset => (accounts_initialClause h).bind ?_
  rintro (_ | first)
  · exact carries_pure rfl rfl
  refine (accounts_many (accounts_clause h)).bind fun more => ?_
  cases hs : Clause.splitCondition (first :: more) with | mk clauses condition
  -- The condition takes no names with it.
  have hnames : (first :: more).flatMap Clause.unbound = clauses.flatMap Clause.unbound :=
    (Clause.flatMap_splitCondition _ hs).trans (by cases condition <;> exact List.append_nil _)
  have hexprs : (first :: more).flatMap Clause.children =
      clauses.flatMap Clause.children ++ condition.toList :=
    (Clause.flatMap_splitCondition _ hs).trans (by cases condition <;> rfl)
  have hend (groupBy : List (GroupingSpec Expr)) (postGroup : List (Clause Expr)) :
      Carries (t ++ .both Clause.unbound Clause.children first
          ++ .all (.both Clause.unbound Clause.children) more
          ++ .all (.both GroupingSpec.unbound GroupingSpec.children) groupBy
          ++ .all (.both Clause.unbound Clause.children) postGroup) (do
        let order ← ordering single
        expect Terminal.returnClause
        let result ← single
        return some (← node (.flwor
          ⟨clauses, condition, groupBy, postGroup, order.1, order.2, result⟩) offset))
        fun found => t ++ .maybe .one found := by
    refine (accounts_ordering h).bind fun order => (quiet_expect _).bind fun _ => ?_
    refine h.bind fun result => carries_someNode ?_ ?_
    · rw [List.flatMap_cons] at hnames
      simp [Flwor.unbound, ← hnames]
    · rw [List.flatMap_cons] at hexprs
      simp [Flwor.children, ← List.append_assoc, ← hexprs]
  refine (quiet_eat _).bind ?_
  rintro (_ | _)
  · have hnone := hend [] []
    rwa [Stock.all_nil, Stock.append_empty, Stock.all_nil, Stock.append_empty] at hnone
  · refine (accounts_separatedBy (accounts_groupingSpec h _)).bind fun groupBy => ?_
    exact (accounts_many (accounts_postGroupClause h)).bind fun postGroup => hend groupBy postGroup

/-! ### Updates -/

theorem quiet_insertPosition : Quiet insertPosition := by
  refine (quiet_eatFirst _).seq ?_
  rintro (_ | position)
  · exact quiet_unexpected _
  · exact quiet_pure _

theorem accounts_replace (h : Builds single) (valueOf : Bool) :
    Accounts (replace single valueOf) .form := by
  refine fun t => h.bind fun target => (quiet_expect _).bind fun _ => h.bind fun new => carries_pure ?_ ?_
  · simp
  · simp

theorem accounts_copyBinding (h : Builds single) :
    Accounts (copyBinding single) (.both VariableBinding.unbound VariableBinding.children) := by
  refine fun t => accounts_variableName.bind fun name => (quiet_expect _).bind fun _ => ?_
  refine h.bind fun value => carries_pure ?_ ?_
  · simp [VariableBinding.unbound]
  · simp [VariableBinding.children]

theorem accounts_transform (h : Builds single) : Accounts (transform single) .form := by
  refine fun t => (accounts_separatedBy (accounts_copyBinding h)).bind fun bindings => ?_
  refine (quiet_expect _).bind fun _ => h.bind fun modify => (quiet_expect _).bind fun _ => ?_
  refine h.bind fun result => carries_pure ?_ ?_
  · simp
  · simp

theorem accounts_updateKind (h : Builds single) : Accounts (updateKind single) (.maybe .form) := by
  refine fun t => (quiet_eatFirst _).bind fun _ => carries_ite (fun _ => ?_) fun _ => ?_
  · refine h.bind fun source => quiet_insertPosition.bind fun position => ?_
    refine h.bind fun target => carries_pure ?_ ?_
    · simp
    · simp
  refine (quiet_eatFirst _).bind fun _ => carries_ite (fun _ => ?_) fun _ => ?_
  · refine h.bind fun target => carries_pure ?_ ?_
    · simp
    · simp
  refine carries_ifEat ((accounts_replace h true).some t) (carries_ifEat ((accounts_replace h false).some t)
    (carries_ifEat ?_ (accounts_whenEats (accounts_transform h) t)))
  refine h.bind fun target => (quiet_expect _).bind fun _ => h.bind fun name => carries_pure ?_ ?_
  · simp
  · simp

theorem accounts_updateExpr (h : Builds single) : BuildsOptional (updateExpr single) := by
  refine fun t => (quiet_observe _).bind fun offset => (accounts_updateKind h).bind ?_
  rintro (_ | kind)
  · exact carries_pure rfl rfl
  · exact carries_someNode rfl rfl

/-! ### Statements -/

theorem accounts_blockVariable (h : Builds single) :
    Accounts (blockVariable single) (.both BlockVarDecl.unbound BlockVarDecl.children) := by
  refine fun t => accounts_typedVariable.bind fun ⟨name, type⟩ => ?_
  refine (accounts_whenEats h).bind fun value => carries_pure ?_ ?_
  · simp [BlockVarDecl.unbound]
  · cases value <;> simp [BlockVarDecl.children]

theorem accounts_blockDeclaration (h : Builds single) :
    Accounts (blockDeclaration single)
      (.maybe (.all (.both BlockVarDecl.unbound BlockVarDecl.children))) := by
  refine accounts_whenEats fun t => (accounts_separatedBy (accounts_blockVariable h)).bind fun declared => ?_
  exact (quiet_expect _).bind fun _ => carries_pure rfl rfl

theorem carries_blockStatement (h : Builds single) (t : Stock) (body : List Expr) :
    Carries (t ++ .all .one body) (blockStatement single body) fun next =>
      t ++ Sum.elim (.all .one) (.all .one) next := by
  refine carries_ifEat (fun _ hs => hs) ((accounts_expr h).bind fun e => ?_)
  refine carries_ifEat (carries_pure ?_ ?_) ((quiet_expect _).bind fun _ => carries_pure ?_ ?_) <;> simp

theorem accounts_blockBody (h : Builds single) (offset : Nat) : Builds (blockBody single offset) := by
  refine fun t => (accounts_many (accounts_blockDeclaration h)).bind fun declarations => ?_
  refine (accounts_iterate (carries_blockStatement h) rfl).bind fun body => carries_node ?_ ?_
  · simp [← List.flatMap_id, List.flatMap_assoc]
  · simp [← List.flatMap_id, List.flatMap_assoc]

theorem accounts_statementKind (h : Builds single) :
    Accounts (statementKind single) (.maybe .form) := by
  refine fun t => carries_ifEat ?_ ?_
  · refine (accounts_parenthesizedExpr h).bind fun condition => (quiet_goto _).bind fun _ => ?_
    refine h.bind fun body => carries_pure ?_ ?_
    · simp
    · simp
  refine (quiet_eatFirst _).bind fun _ => carries_ite (fun _ => ?_) fun _ => ?_
  · refine h.bind fun e => carries_pure ?_ ?_
    · simp
    · simp
  refine carries_ifEat (carries_pure ?_ ?_) (carries_ifEat (carries_pure ?_ ?_)
    (carries_ifEat ?_ (carries_ifEat ?_ (accounts_none t))))
  · simp
  · simp
  · simp
  · simp
  · refine accounts_variableName.bind fun name => (quiet_expect _).bind fun _ => ?_
    refine h.bind fun e => carries_pure ?_ ?_
    · simp
    · simp
  · refine (quiet_observe _).bind fun offset => (quiet_observe _).bind fun name => ?_
    refine (accounts_plainName name offset).bind fun _ => h.bind fun e => carries_pure ?_ ?_
    · simp
    · simp

theorem accounts_scriptingExpr (h : Builds single) : BuildsOptional (scriptingExpr single) := by
  refine fun t => (quiet_observe _).bind fun offset =>
    carries_ifEat ?_ ((accounts_statementKind h).bind ?_)
  · exact (quiet_expect _).bind fun _ => (accounts_blockBody h offset).some t
  · rintro (_ | kind)
    · exact carries_pure rfl rfl
    · exact carries_someNode rfl rfl

theorem carries_queryStatement (h : Builds single) (t : Stock) (body : List Expr) :
    Carries (t ++ .all .one body) (queryStatement single body) fun next =>
      t ++ Sum.elim (.all .one) (.all .one) next := by
  refine (quiet_scan _).bind fun _ => carries_ite (fun _ _ hs => hs) fun _ => ?_
  refine (accounts_expr h).bind fun e => ?_
  refine carries_ifEat (carries_pure ?_ ?_) (carries_pure ?_ ?_) <;> simp

theorem accounts_queryBody (h : Builds single) : Builds (queryBody single) := by
  refine fun t => (quiet_observe _).bind fun offset => (accounts_expr h).bind fun first => ?_
  refine (quiet_eat _).bind fun _ => carries_ite (fun _ _ hs => hs) fun _ => ?_
  have hloop := carries_iterate (carries_queryStatement h t) [first]
  refine Contract.bind (Contract.weaken hloop (fun s hs => ?_) fun _ _ hs => hs) fun body => ?_
  · exact hs.perm (by simp [Stock.unbound])
  · refine carries_node ?_ ?_
    · simp
    · simp

/-! ### Functions -/

theorem quiet_annotationLiteral : Quiet annotationLiteral := by
  refine fun t => carries_ifEat ?_ (carries_ifEat ?_ (carries_unexpected _))
  · exact (quiet_observe _).bind fun _ => quiet_pure _ t
  · exact (quiet_observe _).bind fun _ => quiet_pure _ t

theorem quiet_annotationLiterals : Quiet annotationLiterals := by
  refine fun t => carries_ifEat ?_ (quiet_pure _ t)
  refine (quiet_separatedBy quiet_annotationLiteral).bind fun _ => ?_
  exact (quiet_expect _).bind fun _ => quiet_pure _ t

theorem accounts_annotation? :
    Accounts annotation? (.maybe fun found => .naming AnnotationDecl.unbound found.1) := by
  refine accounts_whenEats fun t => (quiet_observe _).bind fun offset => ?_
  refine (quiet_observe _).bind fun name => (accounts_resolveName name _ offset).bind fun _ => ?_
  exact quiet_annotationLiterals.bind fun _ => carries_pure rfl rfl

theorem carries_furtherAnnotation (t : Stock) (annotations : List AnnotationDecl) :
    Carries (t ++ .all (.naming AnnotationDecl.unbound) annotations) ( addAnnotation annotations)
      fun next => t ++ Sum.elim (.all (.naming AnnotationDecl.unbound))
        (.all (.naming AnnotationDecl.unbound)) next := by
  refine accounts_annotation?.bind ?_
  rintro (_ | ⟨a, offset⟩)
  · exact carries_pure (by simp) (by simp)
  · refine carries_ite (fun _ => (quiet_record (by decide) _ _).bind fun _ => ?_) fun _ => ?_
    · exact carries_pure (by simp) (by simp)
    · exact carries_pure (by simp) (by simp)

theorem accounts_annotationList :
    Accounts annotationList (.all (.naming AnnotationDecl.unbound)) :=
  accounts_iterate carries_furtherAnnotation rfl

theorem accounts_declaredType : Accounts declaredType (.maybe (.naming SequenceType.unbound)) :=
  accounts_whenEats (accounts_sequenceType .variableDeclaration)

theorem accounts_param (params : List Param) : Accounts (param params) (.naming Param.unbound) := by
  refine fun t => (quiet_expect _).bind fun _ => (quiet_observe _).bind fun offset => ?_
  refine (quiet_observe _).bind fun name => (accounts_plainName name offset).bind fun name => ?_
  have hend : Carries (t ++ .naming QName.unbound name) (do
      return Param.mk name (← declaredType)) fun p => t ++ .naming Param.unbound p := by
    refine accounts_declaredType.bind fun type => carries_pure ?_ ?_
    · simp [Param.unbound]
    · simp
  exact carries_ite (fun _ => (quiet_record (by decide) _ _).bind fun _ => hend) fun _ => hend

theorem carries_addParam (t : Stock) (params : List Param) :
    Carries (t ++ .all (.naming Param.unbound) params) (addParam params) fun next =>
      t ++ Sum.elim (.all (.naming Param.unbound)) (.all (.naming Param.unbound)) next := by
  refine (accounts_param params).bind fun p => ?_
  refine carries_ifEat (carries_pure ?_ ?_) (carries_pure ?_ ?_) <;> simp

theorem accounts_paramList : Accounts paramList (.all (.naming Param.unbound)) := by
  refine fun t => carries_ifEat (carries_pure (by simp) (by simp)) ?_
  refine (accounts_iterate carries_addParam rfl).bind fun params => ?_
  exact (quiet_expect _).bind fun _ => carries_pure rfl rfl

theorem accounts_functionBody (h : Builds single) (statements : Bool) (offset : Nat) :
    Builds (functionBody single statements offset) :=
  fun t => carries_ite (fun _ => accounts_blockBody h offset t) fun _ => accounts_exprUpToBrace h offset t

theorem accounts_inlineFunction (h : Builds single) : Builds (inlineFunction single) := by
  refine fun t => (quiet_observe _).bind fun offset => accounts_annotationList.bind fun annotations => ?_
  refine (quiet_expect _).bind fun _ => (quiet_expect _).bind fun _ => ?_
  refine accounts_paramList.bind fun params => accounts_declaredType.bind fun type => ?_
  refine (quiet_expect _).bind fun _ => (quiet_observe _).bind fun place => ?_
  refine (accounts_functionBody h false place).bind fun body => carries_node ?_ ?_
  · simp
  · simp

end XQuerySyntax.Grammar
