import XQuerySyntax.Grammar.Flwor
import XQuerySyntax.Grammar.FullText
import XQuerySyntax.Grammar.Function
import XQuerySyntax.Grammar.Update
import XQuerySyntax.Proofs.Boundary
import XQuerySyntax.Proofs.Composed.Steps

/-! The parsers of names, types and full-text selections, and those of sequences, clauses, updates, statements
and functions, are composed of plain steps. -/

namespace XQuerySyntax.Parser

open XQuerySyntax.Grammar

/-! ### Names -/

theorem plain_resolveQualifier (qualifier : String) (offset : Nat) :
    Plain (resolveQualifier qualifier offset) := by
  have hlookup : Plain (consult (·.resolve? qualifier)) :=
    fun _ => .consult fun _ _ h => congrFun (congrArg Prod.fst h) qualifier
  refine hlookup.seq fun uri => ?_
  cases uri with
  | none => exact (plain_record rfl _ _).seq fun _ => plain_pure none
  | some uri => exact plain_pure (some uri)

theorem plain_resolveName (name : LexicalName) (default : Option String) (offset : Nat) :
    Plain (resolveName name default offset) := by
  unfold resolveName
  split
  · exact (plain_resolveQualifier _ offset).seq fun _ => plain_pure _
  · exact plain_pure _

theorem plain_elementNamespace : Plain (consult (·.elementNamespace?)) :=
  fun _ => .consult fun _ _ h => congrArg (·.2.1) h

theorem plain_elementName (name : LexicalName) (offset : Nat) : Plain (elementName name offset) :=
  plain_elementNamespace.seq fun _ => plain_resolveName name _ offset

theorem plain_functionName (name : LexicalName) (offset : Nat) : Plain (functionName name offset) := by
  have hlookup : Plain (consult (·.functionNamespace?)) :=
    fun _ => .consult fun _ _ h => congrArg (·.2.2.1) h
  exact hlookup.seq fun _ => plain_resolveName name _ offset

theorem plain_plainName (name : LexicalName) (offset : Nat) : Plain (plainName name offset) :=
  plain_resolveName name none offset

/-- The name that a rule has captured, resolved in one way or another. -/
theorem plain_capturedName {β : Type} {resolve : LexicalName → Nat → Parser QName} {next : QName → Parser β}
    (h : ∀ name offset, Plain (resolve name offset)) (hn : ∀ name, Plain (next name)) :
    Plain (do
      let offset ← start
      let name ← resolve (← capturedQualifiedName 0) offset
      next name) :=
  (plain_observe _).seq fun offset => (plain_observe _).seq fun name => (h name offset).seq hn

theorem plain_variableName : Plain variableName := by
  refine (plain_expect _).seq fun _ => (plain_observe _).seq fun offset => ?_
  exact (plain_observe _).seq fun name => plain_plainName name offset

theorem plain_checkBinding (qualifier uri : String) (offset : Nat) :
    Plain (checkBinding qualifier uri offset) :=
  plain_ite (plain_record rfl _ _) (plain_ite (plain_record rfl _ _) (plain_pure ()))

theorem plain_checkDefaultNamespace (uri : String) (offset : Nat) :
    Plain (checkDefaultNamespace uri offset) := plain_ite (plain_record rfl _ _) (plain_pure ())

theorem plain_nameTest (default : Option String) : Plain (nameTest default) := by
  refine plain_ifEat ?_ (plain_ifEat ?_ (plain_ifEat (plain_pure _) (plain_ifEat ?_ (plain_pure _))))
  · exact (plain_observe _).seq fun _ => plain_pure _
  · refine (plain_observe _).seq fun offset => (plain_observe _).seq fun qualifier => ?_
    exact (plain_resolveQualifier qualifier offset).seq fun _ => plain_pure _
  · refine (plain_observe _).seq fun offset => (plain_observe _).seq fun name => ?_
    exact (plain_resolveName name default offset).seq fun _ => plain_pure _

/-! ### Kind tests -/

theorem plain_elementTestName (isElement : Bool) : Plain (elementTestName isElement) := by
  refine plain_ifEat (plain_pure _) (plain_ifEat ?_ (plain_unexpected _))
  refine (plain_observe _).seq fun offset => (plain_observe _).seq fun name => plain_ite ?_ ?_
  · exact (plain_elementName name offset).seq fun _ => plain_pure _
  · exact (plain_plainName name offset).seq fun _ => plain_pure _

theorem plain_elementTestArgs (isElement : Bool) : Plain (elementTestArgs isElement) := by
  refine plain_ifEat (plain_pure _) ((plain_elementTestName isElement).seq fun name => ?_)
  refine (plain_whenEats ?_).seq fun _ => (plain_expect _).seq fun _ => plain_pure _
  refine (plain_expect _).seq fun _ => plain_capturedName plain_elementName fun typeName => ?_
  exact plain_ite ((plain_eat _).seq fun _ => plain_pure _) ((plain_pure false).seq fun _ => plain_pure _)

theorem plain_schemaTestName (isElement : Bool) : Plain (schemaTestName isElement) := by
  refine (plain_expect _).seq fun _ => (plain_observe _).seq fun offset => ?_
  refine (plain_observe _).seq fun name => plain_ite ?_ ?_
  · exact (plain_elementName name offset).seq fun _ => (plain_expect _).seq fun _ => plain_pure _
  · exact (plain_plainName name offset).seq fun _ => (plain_expect _).seq fun _ => plain_pure _

theorem plain_processingInstructionTarget : Plain processingInstructionTarget :=
  plain_ifEat ((plain_observe _).seq fun _ => plain_pure _)
    (plain_ifEat ((plain_observe _).seq fun _ => plain_pure _) (plain_pure _))

theorem plain_documentTestRoot : Plain documentTestRoot :=
  plain_ifEat ((plain_elementTestArgs true).seq fun _ => plain_pure _)
    (plain_ifEat (plain_schemaTestName true |>.seq fun _ => plain_pure _) (plain_pure _))

theorem plain_kindTest : Plain kindTest := by
  refine plain_ifEat ?_ (plain_ifEat ?_ (plain_ifEat ?_ (plain_ifEat ?_ (plain_ifEat ?_ (plain_ifEat ?_ ?_)))))
  · exact plain_documentTestRoot.seq fun _ => (plain_expect _).seq fun _ => plain_pure _
  · exact (plain_elementTestArgs true).seq fun _ => plain_pure _
  · exact (plain_elementTestArgs false).seq fun _ => plain_pure _
  · exact (plain_schemaTestName true).seq fun _ => plain_pure _
  · exact (plain_schemaTestName false).seq fun _ => plain_pure _
  · exact plain_processingInstructionTarget.seq fun _ => (plain_expect _).seq fun _ => plain_pure _
  · refine (plain_eatFirst _).seq ?_
    rintro (_ | test)
    · exact plain_pure _
    · exact (plain_expect _).seq fun _ => plain_pure _

/-! ### Sequence types -/

theorem plain_occurrence : Plain occurrence := (plain_eatFirst _).seq fun _ => plain_pure _

theorem plain_sequenceTypeOf {itemType : Parser ItemType} (h : Plain itemType) (resume : LexicalState) :
    Plain (sequenceTypeOf itemType resume) := by
  refine (plain_goto _).seq fun _ => plain_ifEat ?_ ((plain_nested h).seq fun _ => ?_)
  · exact (plain_goto _).seq fun _ => plain_pure _
  · refine (plain_goto _).seq fun _ => plain_occurrence.seq fun _ => ?_
    exact (plain_goto _).seq fun _ => plain_pure _

theorem plain_functionTest {itemType : Parser ItemType} (h : Plain itemType) :
    Plain (functionTest itemType) := by
  have hresult (params : List SequenceType) : Plain (do
      expect Terminal.kindAs
      return ItemType.functionTest params (← sequenceTypeOf itemType .kindTest)) :=
    (plain_expect _).seq fun _ => (plain_sequenceTypeOf h _).seq fun _ => plain_pure _
  refine plain_ifEat (hresult []) ((plain_separatedBy (plain_sequenceTypeOf h _)).seq fun params => ?_)
  exact (plain_expect _).seq fun _ => hresult params

theorem plain_itemTypeWithin (steps : Nat) : Plain (itemTypeWithin steps) := by
  induction steps with
  | zero => exact plain_exhausted
  | succ steps ih =>
    refine plain_ifEat (plain_pure _) (plain_ifEat (plain_pure _) (plain_ifEat (plain_functionTest ih)
      (plain_ifEat ?_ (plain_kindTest.seq ?_))))
    · exact ih.seq fun _ => (plain_expect _).seq fun _ => plain_pure _
    · rintro (_ | test)
      · refine plain_ifEat ((plain_observe _).seq fun offset => ?_) (plain_unexpected _)
        refine (plain_observe _).seq fun name => ?_
        exact (plain_elementName name offset).seq fun _ => plain_pure _
      · exact plain_pure _

theorem plain_sequenceType (resume : LexicalState) : Plain (sequenceType resume) :=
  plain_sequenceTypeOf (plain_steps itemTypeWithin plain_itemTypeWithin) resume

theorem plain_singleType : Plain singleType := by
  refine (plain_goto _).seq fun _ => (plain_expect _).seq fun _ => ?_
  refine plain_capturedName plain_elementName fun typeName => (plain_goto _).seq fun _ => ?_
  exact (plain_eat _).seq fun _ => (plain_goto _).seq fun _ => plain_pure _

theorem plain_typedVariable : Plain typedVariable :=
  plain_variableName.seq fun _ => (plain_whenEats (plain_sequenceType _)).seq fun _ => plain_pure _

/-! ### Match options -/

theorem plain_capturedConstant (i : Nat) : Plain (capturedConstant i) := by
  refine (plain_observe _).seq fun value => (plain_observe _).seq fun offset => ?_
  exact fun _ => .ask fun _ id => .pure (LiteralNode.mk (value.getD (.integer 0)) offset id)

theorem plain_thesaurusLevels : Plain thesaurusLevels := by
  have hone (form : LiteralNode → FtRange LiteralNode) :
      Plain (do return some (form (← capturedConstant 0))) :=
    (plain_capturedConstant 0).seq fun _ => plain_pure _
  refine plain_ifEat (hone _) (plain_ifEat (hone _) (plain_ifEat (hone _) (plain_ifEat ?_ (plain_pure _))))
  exact (plain_capturedConstant 0).seq fun _ => (plain_capturedConstant 1).seq fun _ => plain_pure _

theorem plain_thesaurusId : Plain thesaurusId := by
  refine (plain_expect _).seq fun _ => (plain_observe _).seq fun location => ?_
  refine (plain_whenEats (plain_observe _)).seq fun relationship => plain_thesaurusLevels.seq fun levels => ?_
  exact plain_ite ((plain_expect _).seq fun _ => plain_pure _) (plain_pure _)

theorem plain_thesaurusOption : Plain thesaurusOption := by
  have hthesaurus : Plain thesaurus := plain_ifEat (plain_pure _) plain_thesaurusId.some
  have hend (thesauri : List (Option FtThesaurusId)) : Plain (do
      goto .operator
      return FtThesaurusOption.mk true (thesauri.any Option.isNone) (thesauri.filterMap id)) :=
    (plain_goto _).seq fun _ => plain_pure _
  refine plain_ifEat ?_ ((plain_map _ hthesaurus).seq hend)
  exact (plain_separatedBy hthesaurus).seq fun thesauri => (plain_expect _).seq fun _ => hend thesauri

theorem plain_stopWordList : Plain stopWordList := by
  refine (plain_separatedBy ?_).seq fun words => (plain_expect _).seq fun _ => plain_pure _
  refine (plain_eat _).seq fun matched => plain_ite ?_ (plain_observe _)
  exact (plain_unexpected _).seq fun _ => plain_observe _

/-- The only parser that comes back to a mark. -/
theorem plain_furtherStopWords : Plain furtherStopWords := by
  refine fun K => .mark fun place => .tryFirst _ fun combine => ?_
  cases combine with
  | none => exact .pure none
  | some combine =>
    refine .tryEat (.forget ?_) (.tryEat (.forget ?_) (.restore (.pure none)))
    · exact Plain.seq (plain_observe _) (fun _ => plain_pure _) K
    · exact Plain.seq plain_stopWordList (fun _ => plain_pure _) K

theorem plain_firstStopWords : Plain firstStopWords :=
  plain_ifEat (plain_pure _) (plain_ifEat ((plain_observe _).seq fun _ => plain_pure _)
    (plain_ifEat (plain_stopWordList.seq fun _ => plain_pure _) (plain_pure _)))

theorem plain_stopWordOption : Plain stopWordOption := by
  refine plain_ifEat (plain_pure _) (plain_firstStopWords.seq ?_)
  rintro (_ | words)
  · exact plain_pure _
  · exact (plain_many plain_furtherStopWords).seq fun _ => plain_pure _

theorem plain_matchOption (offset : Nat) : Plain (matchOption offset) := by
  refine (plain_eatFirst _).seq ?_
  rintro (_ | option)
  · refine plain_ifEat ((plain_observe _).seq fun _ => plain_pure _) (plain_ifEat ?_ (plain_ifEat (plain_pure _)
      (plain_ifEat (plain_thesaurusOption.seq fun _ => plain_pure _) (plain_stopWordOption.seq ?_))))
    · refine (plain_observe _).seq fun name => (plain_observe _).seq fun value => ?_
      exact (plain_plainName name offset).seq fun _ => plain_pure _
    · rintro (_ | words)
      · exact plain_unexpected _
      · exact plain_pure _
  · exact plain_pure option

theorem plain_matchOptions : Plain matchOptions := by
  refine plain_iterate (fun options => plain_ifEat ?_ (plain_pure _)) _
  refine (plain_observe _).seq fun offset => (plain_matchOption offset).seq fun option => ?_
  exact plain_ite ((plain_record rfl _ _).seq fun _ => plain_pure _) (plain_pure _)

/-! ### Selections -/

theorem plain_expr {single : Parser Expr} (h : Plain single) : Plain (expr single) := by
  refine h.seq fun first => (plain_peek _).seq fun more => plain_ite (plain_pure _) ?_
  exact (plain_many (plain_whenEats h)).seq fun _ => plain_node _ _

theorem plain_bracedExpr {single : Parser Expr} (h : Plain single) : Plain (bracedExpr single) :=
  (plain_expect _).seq fun _ => (plain_expr h).seq fun _ => (plain_expect _).seq fun _ => plain_pure _

theorem plain_pragmas : Plain pragmas := by
  have hpragma : Plain pragma? := by
    refine plain_whenEats ((plain_observe _).seq fun offset => (plain_observe _).seq fun name => ?_)
    refine (plain_plainName name offset).seq fun _ => ?_
    exact Plain.seq (fun _ => .lexeme (scanDelimited_within _ _)) fun _ => plain_pure _
  refine (plain_many hpragma).seq ?_
  rintro (_ | ⟨⟨first, offset⟩, rest⟩)
  · exact (plain_observe _).seq fun _ => plain_pure _
  · exact plain_pure _

theorem plain_ftUnit : Plain ftUnit := by
  refine (plain_eatFirst _).seq ?_
  rintro (_ | unit)
  · exact plain_unexpected _
  · exact plain_pure unit

theorem plain_ftBigUnit : Plain ftBigUnit := by
  refine (plain_eatFirst _).seq ?_
  rintro (_ | unit)
  · exact plain_unexpected _
  · exact plain_pure unit

theorem plain_ftAnyAll : Plain ftAnyAll := (plain_eatFirst _).seq fun _ => plain_pure _

section

variable {single additive : Parser Expr} {selection : Parser (FtSelection Expr)}

theorem plain_ftRange (h : Plain additive) : Plain (ftRange additive) := by
  have hone (form : Expr → FtRange Expr) : Plain (do return form (← additive)) :=
    h.seq fun _ => plain_pure _
  refine plain_ifEat (hone _) (plain_ifEat (hone _) (plain_ifEat (hone _) (plain_ifEat ?_ (plain_unexpected _))))
  exact h.seq fun _ => (plain_expect _).seq fun _ => h.seq fun _ => plain_pure _

theorem plain_ftPosFilter (h : Plain additive) : Plain (ftPosFilter additive) := by
  refine plain_ifEat (plain_pure _) (plain_ifEat ?_ (plain_ifEat ?_ (plain_ifEat ?_ (plain_ifEat ?_
    (plain_eatFirst _)))))
  · exact h.seq fun _ => plain_ftUnit.seq fun _ => plain_pure _
  · exact (plain_ftRange h).seq fun _ => plain_ftUnit.seq fun _ => plain_pure _
  · exact plain_ftBigUnit.seq fun _ => plain_pure _
  · exact plain_ftBigUnit.seq fun _ => plain_pure _

theorem plain_ftTimes (h : Plain additive) : Plain (ftTimes additive) :=
  plain_whenEats ((plain_ftRange h).seq fun _ => (plain_expect _).seq fun _ => plain_pure _)

theorem plain_ftWords (hs : Plain single) (ha : Plain additive) : Plain (ftWords single additive) := by
  refine plain_ifEat ?_ (plain_ifEat ?_ (plain_unexpected _))
  · refine (plain_observe _).seq fun text => plain_ftAnyAll.seq fun mode => ?_
    exact (plain_ftTimes ha).seq fun _ => plain_pure _
  · refine (plain_expr hs).seq fun e => (plain_expect _).seq fun _ => plain_ftAnyAll.seq fun mode => ?_
    exact (plain_ftTimes ha).seq fun _ => plain_pure _

theorem plain_ftPrimary (hs : Plain single) (ha : Plain additive) (h : Plain selection) :
    Plain (ftPrimary single additive selection) := by
  refine plain_ifPeek ?_ (plain_ifEat ?_ (plain_ftWords hs ha))
  · refine plain_pragmas.seq fun ⟨ps, offset⟩ => (plain_expect _).seq fun _ => plain_ifEat (plain_pure _) ?_
    exact h.seq fun _ => (plain_expect _).seq fun _ => plain_pure _
  · exact h.seq fun _ => (plain_expect _).seq fun _ => plain_pure _

theorem plain_ftUnaryNot (hs : Plain single) (ha : Plain additive) (h : Plain selection) :
    Plain (ftUnaryNot single additive selection) := by
  have hoptions : Plain (ftPrimaryWithOptions single additive selection) := by
    refine (plain_ftPrimary hs ha h).seq fun primary => plain_matchOptions.seq fun options => ?_
    refine (plain_whenEats (plain_bracedExpr hs)).seq fun weight => ?_
    exact plain_ite (plain_pure _) (plain_pure _)
  exact plain_ifEat (hoptions.seq fun _ => plain_pure _) hoptions

theorem plain_ftOr (hs : Plain single) (ha : Plain additive) (h : Plain selection) :
    Plain (ftOr single additive selection) :=
  plain_map _ (plain_separatedBy (plain_map _ (plain_separatedBy (plain_map _ (plain_separatedBy
    (plain_ftUnaryNot hs ha h))))))

theorem plain_ftSelection (hs : Plain single) (ha : Plain additive) : Plain (ftSelection single additive) := by
  refine plain_steps (ftSelectionWithin single additive) fun steps => ?_
  induction steps with
  | zero => exact plain_exhausted
  | succ steps ih =>
    refine plain_nested ((plain_ftOr hs ha ih).seq fun inner => (plain_many (plain_ftPosFilter ha)).seq ?_)
    rintro (_ | ⟨filter, filters⟩)
    · exact plain_pure _
    · exact plain_pure _

end

variable {single : Parser Expr}

/-! ### Expressions in braces -/

theorem plain_exprUpToBrace? (h : Plain single) : Plain (exprUpToBrace? single) :=
  plain_ifEat (plain_pure _) ((plain_expr h).seq fun _ => (plain_expect _).seq fun _ => plain_pure _)

theorem plain_exprUpToBrace (h : Plain single) (offset : Nat) : Plain (exprUpToBrace single offset) := by
  refine (plain_exprUpToBrace? h).seq ?_
  rintro (_ | e)
  · exact plain_node _ _
  · exact plain_pure e

theorem plain_enclosedExpr (h : Plain single) : Plain (enclosedExpr single) :=
  (plain_expect _).seq fun _ => (plain_observe _).seq fun offset => plain_exprUpToBrace h offset

theorem plain_optionalExpr (h : Plain single) : Plain (optionalExpr single) :=
  (plain_expect _).seq fun _ => plain_exprUpToBrace? h

theorem plain_parenthesizedExpr (h : Plain single) : Plain (parenthesizedExpr single) :=
  (plain_expect _).seq fun _ => (plain_expr h).seq fun _ => (plain_expect _).seq fun _ => plain_pure _

theorem plain_extensionExpr (h : Plain single) : Plain (extensionExpr single) :=
  plain_pragmas.seq fun ⟨_, _⟩ => (plain_optionalExpr h).seq fun _ => plain_node _ _

/-! ### Clauses -/

theorem plain_positionalVariable (name : QName) : Plain (positionalVariable name) := by
  refine (plain_observe _).seq fun _ => plain_variableName.seq fun _ => plain_ite ?_ (plain_pure _)
  exact (plain_record rfl _ _).seq fun _ => plain_pure _

theorem plain_forBinding (h : Plain single) : Plain (forBinding single) := by
  refine (plain_observe _).seq fun _ => plain_typedVariable.seq fun ⟨name, _⟩ => ?_
  refine (plain_eat _).seq fun _ => (plain_whenEats (plain_positionalVariable name)).seq fun _ => ?_
  refine (plain_whenEats plain_variableName).seq fun _ => (plain_expect _).seq fun _ => ?_
  exact h.seq fun _ => plain_pure _

theorem plain_letBinding (h : Plain single) (score : Bool) : Plain (letBinding single score) := by
  refine (plain_observe _).seq fun offset => ?_
  have hend (binding : QName × Option SequenceType) : Plain (do
      expect Terminal.assign
      let value ← single
      return LetBinding.mk binding.1 binding.2 score value offset) :=
    (plain_expect _).seq fun _ => h.seq fun _ => plain_pure _
  exact plain_ite ((plain_map _ plain_variableName).seq hend) (plain_typedVariable.seq hend)

theorem plain_letBindings (h : Plain single) (score : Bool) : Plain (letBindings single score) := by
  refine (plain_letBinding h score).seq fun first => ?_
  exact (plain_many (plain_whenEats (plain_letBinding h false))).seq fun _ => plain_pure _

theorem plain_windowCondition (h : Plain single) (only : Bool) : Plain (windowCondition single only) := by
  have hvariable (r : Rule) : Plain (whenEats r variableName) := plain_whenEats plain_variableName
  have hend (current : Option QName) : Plain (do
      let positional ← whenEats Terminal.windowAt variableName
      let previous ← whenEats Terminal.windowPrevious variableName
      let next ← whenEats Terminal.windowNext variableName
      expect Terminal.whenCondition
      let condition ← single
      return WindowCondition.mk only ⟨current, positional, previous, next⟩ condition) := by
    refine (hvariable _).seq fun _ => (hvariable _).seq fun _ => (hvariable _).seq fun _ => ?_
    exact (plain_expect _).seq fun _ => h.seq fun _ => plain_pure _
  exact plain_ifPeek ((plain_map _ plain_variableName).seq hend) ((plain_pure _).seq hend)

theorem plain_windowEnd (h : Plain single) (kind : WindowKind) : Plain (windowEnd single kind) := by
  have hsome (only : Bool) := (plain_windowCondition h only).some
  refine plain_ifEat (hsome true) (plain_ifEat (hsome false) (plain_ite ?_ (plain_pure none)))
  exact (plain_unexpected _).seq fun _ => plain_pure none

theorem plain_windowClause (h : Plain single) (kind : WindowKind) : Plain (windowClause single kind) := by
  refine (plain_observe _).seq fun offset => plain_typedVariable.seq fun ⟨name, _⟩ => ?_
  refine (plain_expect _).seq fun _ => h.seq fun source => (plain_expect _).seq fun _ => ?_
  refine (plain_windowCondition h false).seq fun first => (plain_windowEnd h kind).seq fun last => ?_
  exact (plain_forIn (fun n => plain_record rfl _ _) _).seq fun _ => plain_pure _

theorem plain_initialClause (h : Plain single) : Plain (initialClause single) := by
  refine plain_ifEat (plain_windowClause h _).some (plain_ifEat (plain_windowClause h _).some
    (plain_ifEat ?_ (plain_ifEat (plain_letBindings h _).some (plain_ifEat (plain_letBindings h _).some
    (plain_pure none)))))
  exact (plain_separatedBy (plain_forBinding h)).seq fun _ => plain_pure _

theorem plain_clause (h : Plain single) : Plain (clause single) := by
  refine (plain_initialClause h).seq ?_
  rintro (_ | c)
  · exact plain_ifEat (h.seq fun _ => plain_pure _)
      (plain_ifEat (plain_variableName.seq fun _ => plain_pure _) (plain_pure none))
  · exact plain_pure _

theorem plain_collation : Plain collation := plain_whenEats (plain_observe _)

theorem plain_groupingSpec (h : Plain single) (bound : List ExpandedName) :
    Plain (groupingSpec single bound) := by
  refine (plain_observe _).seq fun offset => plain_variableName.seq fun name => ?_
  refine (plain_whenEats h).seq fun value => ?_
  have hend : Plain (do return GroupingSpec.mk name value (← collation)) :=
    plain_collation.seq fun _ => plain_pure _
  exact plain_ite ((plain_record rfl _ _).seq fun _ => hend) hend

theorem plain_orderSpec (h : Plain single) : Plain (orderSpec single) :=
  h.seq fun _ => (plain_eatFirst _).seq fun _ => (plain_eatFirst _).seq fun _ =>
    plain_collation.seq fun _ => plain_pure _

theorem plain_ordering (h : Plain single) : Plain (ordering single) := by
  refine (plain_eatFirst _).seq ?_
  rintro (_ | stable)
  · exact plain_pure _
  · exact (plain_separatedBy (plain_orderSpec h)).seq fun _ => plain_pure _

theorem plain_postGroupClause (h : Plain single) : Plain (postGroupClause single) := by
  refine (plain_clause h).seq ?_
  rintro (_ | c)
  · refine plain_ifEat ((plain_observe _).seq fun _ => ?_) (plain_pure none)
    exact (plain_fatal _ _ _).seq fun _ => plain_pure none
  · exact plain_pure _

theorem plain_flwor (h : Plain single) : Plain (flwor single) := by
  refine (plain_observe _).seq fun offset => (plain_initialClause h).seq ?_
  rintro (_ | first)
  · exact plain_pure none
  refine (plain_many (plain_clause h)).seq fun more => ?_
  cases Clause.splitCondition (first :: more) with | mk clauses condition
  have hend (groupBy : List (GroupingSpec Expr)) (postGroup : List (Clause Expr)) : Plain (do
      let order ← ordering single
      expect Terminal.returnClause
      let result ← single
      return some (← node (.flwor
        ⟨clauses, condition, groupBy, postGroup, order.1, order.2, result⟩) offset)) :=
    (plain_ordering h).seq fun _ => (plain_expect _).seq fun _ => h.seq fun _ => (plain_node _ _).some
  refine (plain_eat _).seq ?_
  rintro (_ | _)
  · exact hend [] []
  · exact (plain_separatedBy (plain_groupingSpec h _)).seq fun groupBy =>
      (plain_many (plain_postGroupClause h)).seq fun postGroup => hend groupBy postGroup

/-! ### Updates -/

theorem plain_insertPosition : Plain insertPosition := by
  refine (plain_eatFirst _).seq ?_
  rintro (_ | position)
  · exact plain_unexpected _
  · exact plain_pure position

theorem plain_replace (h : Plain single) (valueOf : Bool) : Plain (replace single valueOf) :=
  h.seq fun _ => (plain_expect _).seq fun _ => h.seq fun _ => plain_pure _

theorem plain_transform (h : Plain single) : Plain (transform single) := by
  have hcopy : Plain (copyBinding single) :=
    plain_variableName.seq fun _ => (plain_expect _).seq fun _ => h.seq fun _ => plain_pure _
  refine (plain_separatedBy hcopy).seq fun bindings => (plain_expect _).seq fun _ => ?_
  exact h.seq fun modify => (plain_expect _).seq fun _ => h.seq fun result => plain_pure _

theorem plain_updateKind (h : Plain single) : Plain (updateKind single) := by
  refine (plain_eatFirst _).seq fun _ => plain_ite ?_ ((plain_eatFirst _).seq fun _ => plain_ite ?_
    (plain_ifEat (plain_replace h _).some (plain_ifEat (plain_replace h _).some
    (plain_ifEat ?_ (plain_whenEats (plain_transform h))))))
  · exact h.seq fun _ => plain_insertPosition.seq fun _ => h.seq fun _ => plain_pure _
  · exact h.seq fun _ => plain_pure _
  · exact h.seq fun _ => (plain_expect _).seq fun _ => h.seq fun _ => plain_pure _

/-- A node made of a form that may not be there. -/
theorem plain_form {p : Parser (Option (ExprKind Expr))} (h : Plain p) : Plain (do
    let offset ← nextOffset
    match ← p with
    | none => return none
    | some kind => return some (← node kind offset)) := by
  refine (plain_observe _).seq fun offset => h.seq ?_
  rintro (_ | kind)
  · exact plain_pure none
  · exact (plain_node _ _).some

theorem plain_updateExpr (h : Plain single) : Plain (updateExpr single) := plain_form (plain_updateKind h)

/-! ### Statements -/

theorem plain_blockDeclaration (h : Plain single) : Plain (blockDeclaration single) := by
  have hvariable : Plain (blockVariable single) :=
    plain_typedVariable.seq fun ⟨_, _⟩ => (plain_whenEats h).seq fun _ => plain_pure _
  refine plain_whenEats ((plain_separatedBy hvariable).seq fun declared => ?_)
  exact (plain_expect _).seq fun _ => plain_pure declared

theorem plain_blockStatement (h : Plain single) (body : List Expr) : Plain (blockStatement single body) := by
  refine plain_ifEat (plain_pure _) ((plain_expr h).seq fun e => plain_ifEat (plain_pure _) ?_)
  exact (plain_expect _).seq fun _ => plain_pure _

theorem plain_blockBody (h : Plain single) (offset : Nat) : Plain (blockBody single offset) :=
  (plain_many (plain_blockDeclaration h)).seq fun _ =>
    (plain_iterate (plain_blockStatement h) _).seq fun _ => plain_node _ _

theorem plain_statementKind (h : Plain single) : Plain (statementKind single) := by
  refine plain_ifEat ?_ ((plain_eatFirst _).seq fun _ => plain_ite (h.seq fun _ => plain_pure _)
    (plain_ifEat (plain_pure _) (plain_ifEat (plain_pure _) (plain_ifEat ?_
    (plain_ifEat ?_ (plain_pure none))))))
  · exact (plain_parenthesizedExpr h).seq fun _ => (plain_goto _).seq fun _ => h.seq fun _ => plain_pure _
  · exact plain_variableName.seq fun _ => (plain_expect _).seq fun _ => h.seq fun _ => plain_pure _
  · exact plain_capturedName plain_plainName fun _ => h.seq fun _ => plain_pure _

theorem plain_scriptingExpr (h : Plain single) : Plain (scriptingExpr single) := by
  refine (plain_observe _).seq fun offset => plain_ifEat ?_ ((plain_statementKind h).seq ?_)
  · exact (plain_expect _).seq fun _ => (plain_blockBody h offset).some
  · rintro (_ | kind)
    · exact plain_pure none
    · exact (plain_node _ _).some

theorem plain_queryBody (h : Plain single) : Plain (queryBody single) := by
  refine (plain_observe _).seq fun offset => (plain_expr h).seq fun first => (plain_eat _).seq fun _ => ?_
  refine plain_ite (plain_pure first) ((plain_iterate (fun body => ?_) _).seq fun _ => plain_node _ _)
  refine Plain.seq (fun _ => .atEnd) fun _ => plain_ite (plain_pure _) ((plain_expr h).seq fun e => ?_)
  exact plain_ifEat (plain_pure _) (plain_pure _)

/-! ### Functions -/

theorem plain_annotationLiterals : Plain annotationLiterals := by
  have hliteral : Plain annotationLiteral :=
    plain_ifEat ((plain_observe _).seq fun _ => plain_pure _)
      (plain_ifEat ((plain_observe _).seq fun _ => plain_pure _) (plain_unexpected _))
  refine plain_ifEat ((plain_separatedBy hliteral).seq fun values => ?_) (plain_pure _)
  exact (plain_expect _).seq fun _ => plain_pure values

theorem plain_annotation? : Plain annotation? := by
  refine plain_whenEats ((plain_observe _).seq fun offset => (plain_observe _).seq fun name => ?_)
  refine (plain_resolveName name _ offset).seq fun _ => ?_
  exact plain_annotationLiterals.seq fun _ => plain_pure _

theorem plain_annotationList : Plain annotationList := by
  refine plain_iterate (fun annotations => plain_annotation?.seq ?_) _
  rintro (_ | ⟨a, offset⟩)
  · exact plain_pure _
  · exact plain_ite ((plain_record rfl _ _).seq fun _ => plain_pure _) (plain_pure _)

theorem plain_declaredType : Plain declaredType := plain_whenEats (plain_sequenceType _)

theorem plain_param (params : List Param) : Plain (param params) := by
  refine (plain_expect _).seq fun _ => (plain_observe _).seq fun offset => ?_
  refine (plain_observe _).seq fun name => (plain_plainName name offset).seq fun name => ?_
  have hend : Plain (do return Param.mk name (← declaredType)) :=
    plain_declaredType.seq fun _ => plain_pure _
  exact plain_ite ((plain_record rfl _ _).seq fun _ => hend) hend

theorem plain_paramList : Plain paramList := by
  refine plain_ifEat (plain_pure _) ((plain_iterate (fun params => ?_) _).seq fun params => ?_)
  · exact (plain_param params).seq fun p => plain_ifEat (plain_pure _) (plain_pure _)
  · exact (plain_expect _).seq fun _ => plain_pure params

theorem plain_functionBody (h : Plain single) (statements : Bool) (offset : Nat) :
    Plain (functionBody single statements offset) :=
  plain_ite (plain_blockBody h offset) (plain_exprUpToBrace h offset)

theorem plain_inlineFunction (h : Plain single) : Plain (inlineFunction single) := by
  refine (plain_observe _).seq fun offset => plain_annotationList.seq fun annotations => ?_
  refine (plain_expect _).seq fun _ => (plain_expect _).seq fun _ => plain_paramList.seq fun params => ?_
  refine plain_declaredType.seq fun type => (plain_expect _).seq fun _ => (plain_observe _).seq fun place => ?_
  exact (plain_functionBody h false place).seq fun _ => plain_node _ _

end XQuerySyntax.Parser
