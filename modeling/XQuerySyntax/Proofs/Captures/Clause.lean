import XQuerySyntax.Grammar.Flwor
import XQuerySyntax.Grammar.FullText
import XQuerySyntax.Grammar.Function
import XQuerySyntax.Grammar.Update
import XQuerySyntax.Proofs.Captures.Supplied

/-! The parsers of names, types and full-text selections, and those of sequences, clauses, updates, statements
and functions, read captures behind their own matches only. -/

namespace XQuerySyntax.Parser

open XQuerySyntax.Grammar

/-! ### Names -/

theorem supplied_resolveQualifier (qualifier : String) (offset : Nat) :
    Supplied (resolveQualifier qualifier offset) := by
  refine (supplied_consult _).seq fun uri => ?_
  cases uri with
  | none => exact (supplied_record _ _ _).seq fun _ => supplied_pure none
  | some uri => exact supplied_pure (some uri)

theorem supplied_resolveName (name : LexicalName) (default : Option String) (offset : Nat) :
    Supplied (resolveName name default offset) := by
  unfold resolveName
  split
  · exact (supplied_resolveQualifier _ offset).seq fun _ => supplied_pure _
  · exact supplied_pure _

theorem supplied_elementName (name : LexicalName) (offset : Nat) : Supplied (elementName name offset) :=
  (supplied_consult _).seq fun _ => supplied_resolveName name _ offset

theorem supplied_functionName (name : LexicalName) (offset : Nat) : Supplied (functionName name offset) :=
  (supplied_consult _).seq fun _ => supplied_resolveName name _ offset

theorem supplied_plainName (name : LexicalName) (offset : Nat) : Supplied (plainName name offset) :=
  supplied_resolveName name none offset

/-- The name that the last match has captured, resolved in one way or another. -/
theorem suppliedBy_resolved {kinds : List Placeholder} {resolve : LexicalName → Nat → Parser QName}
    (h : kinds[0]? = some .qualifiedName) (hresolve : ∀ name offset, Supplied (resolve name offset)) :
    SuppliedBy kinds (do
      let offset ← start
      resolve (← capturedQualifiedName 0) offset) :=
  spares_start.bind fun offset => (suppliedBy_captured h).seq fun name => hresolve name offset

theorem supplied_variableName : Supplied variableName :=
  supplied_expectCaptures (suppliedBy_resolved (by decide) supplied_plainName)

theorem supplied_checkBinding (qualifier uri : String) (offset : Nat) :
    Supplied (checkBinding qualifier uri offset) :=
  supplied_ite (supplied_record _ _ _) (supplied_ite (supplied_record _ _ _) (supplied_pure ()))

theorem supplied_checkDefaultNamespace (uri : String) (offset : Nat) :
    Supplied (checkDefaultNamespace uri offset) := supplied_ite (supplied_record _ _ _) (supplied_pure ())

theorem supplied_nameTest (default : Option String) : Supplied (nameTest default) := by
  refine supplied_ifCaptures ?_ (supplied_ifCaptures ?_ (supplied_ifEat (supplied_pure _)
    (supplied_ifCaptures ?_ (supplied_pure _))))
  · exact (suppliedBy_captured (by decide)).seq fun _ => supplied_pure _
  · refine spares_start.bind fun offset => (suppliedBy_captured (by decide)).seq fun qualifier => ?_
    exact (supplied_resolveQualifier qualifier offset).seq fun _ => supplied_pure _
  · refine spares_start.bind fun offset => (suppliedBy_captured (by decide)).seq fun name => ?_
    exact (supplied_resolveName name default offset).seq fun _ => supplied_pure _

/-! ### Kind tests -/

theorem supplied_elementTestName (isElement : Bool) : Supplied (elementTestName isElement) := by
  refine supplied_ifEat (supplied_pure _) (supplied_ifCaptures ?_ (supplied_unexpected _))
  refine spares_start.bind fun offset => (suppliedBy_captured (by decide)).seq fun name => supplied_ite ?_ ?_
  · exact (supplied_elementName name offset).seq fun _ => supplied_pure _
  · exact (supplied_plainName name offset).seq fun _ => supplied_pure _

theorem supplied_elementTestArgs (isElement : Bool) : Supplied (elementTestArgs isElement) := by
  refine supplied_ifEat (supplied_pure _) ((supplied_elementTestName isElement).seq fun name => ?_)
  refine (supplied_whenEats ?_).seq fun _ => (supplied_expect _).seq fun _ => supplied_pure _
  refine supplied_expectCaptures (spares_start.bind fun offset => ?_)
  refine (suppliedBy_captured (by decide)).seq fun name => ?_
  refine (supplied_elementName name offset).seq fun typeName => ?_
  exact supplied_ite ((supplied_eat _).seq fun _ => supplied_pure _)
    ((supplied_pure false).seq fun _ => supplied_pure _)

theorem supplied_schemaTestName (isElement : Bool) : Supplied (schemaTestName isElement) := by
  refine supplied_expectCaptures (spares_start.bind fun offset => ?_)
  refine (suppliedBy_captured (by decide)).seq fun name => supplied_ite ?_ ?_
  · exact (supplied_elementName name offset).seq fun _ => (supplied_expect _).seq fun _ => supplied_pure _
  · exact (supplied_plainName name offset).seq fun _ => (supplied_expect _).seq fun _ => supplied_pure _

theorem supplied_processingInstructionTarget : Supplied processingInstructionTarget :=
  supplied_ifCaptures ((suppliedBy_captured (by decide)).seq fun _ => supplied_pure _)
    (supplied_ifCaptures ((suppliedBy_captured (by decide)).seq fun _ => supplied_pure _) (supplied_pure _))

theorem supplied_documentTestRoot : Supplied documentTestRoot :=
  supplied_ifEat ((supplied_elementTestArgs true).seq fun _ => supplied_pure _)
    (supplied_ifEat (supplied_schemaTestName true |>.seq fun _ => supplied_pure _) (supplied_pure _))

theorem supplied_kindTest : Supplied kindTest := by
  refine supplied_ifEat ?_ (supplied_ifEat ?_ (supplied_ifEat ?_ (supplied_ifEat ?_ (supplied_ifEat ?_
    (supplied_ifEat ?_ ?_)))))
  · exact supplied_documentTestRoot.seq fun _ => (supplied_expect _).seq fun _ => supplied_pure _
  · exact (supplied_elementTestArgs true).seq fun _ => supplied_pure _
  · exact (supplied_elementTestArgs false).seq fun _ => supplied_pure _
  · exact (supplied_schemaTestName true).seq fun _ => supplied_pure _
  · exact (supplied_schemaTestName false).seq fun _ => supplied_pure _
  · exact supplied_processingInstructionTarget.seq fun _ => (supplied_expect _).seq fun _ => supplied_pure _
  · refine (supplied_eatFirst _).seq ?_
    rintro (_ | test)
    · exact supplied_pure _
    · exact (supplied_expect _).seq fun _ => supplied_pure _

/-! ### Sequence types -/

theorem supplied_occurrence : Supplied occurrence := (supplied_eatFirst _).seq fun _ => supplied_pure _

theorem supplied_sequenceTypeOf {itemType : Parser ItemType} (h : Supplied itemType) (resume : LexicalState) :
    Supplied (sequenceTypeOf itemType resume) := by
  refine (supplied_goto _).seq fun _ => supplied_ifEat ?_ ((supplied_nested h).seq fun _ => ?_)
  · exact (supplied_goto _).seq fun _ => supplied_pure _
  · refine (supplied_goto _).seq fun _ => supplied_occurrence.seq fun _ => ?_
    exact (supplied_goto _).seq fun _ => supplied_pure _

theorem supplied_functionTest {itemType : Parser ItemType} (h : Supplied itemType) :
    Supplied (functionTest itemType) := by
  have hresult (params : List SequenceType) : Supplied (do
      expect Terminal.kindAs
      return ItemType.functionTest params (← sequenceTypeOf itemType .kindTest)) :=
    (supplied_expect _).seq fun _ => (supplied_sequenceTypeOf h _).seq fun _ => supplied_pure _
  refine supplied_ifEat (hresult []) ((supplied_separatedBy (supplied_sequenceTypeOf h _)).seq fun params => ?_)
  exact (supplied_expect _).seq fun _ => hresult params

theorem supplied_itemTypeWithin (steps : Nat) : Supplied (itemTypeWithin steps) := by
  induction steps with
  | zero => exact supplied_exhausted
  | succ steps ih =>
    refine supplied_ifEat (supplied_pure _) (supplied_ifEat (supplied_pure _)
      (supplied_ifEat (supplied_functionTest ih) (supplied_ifEat ?_ (supplied_kindTest.seq ?_))))
    · exact ih.seq fun _ => (supplied_expect _).seq fun _ => supplied_pure _
    · rintro (_ | test)
      · refine supplied_ifCaptures (spares_start.bind fun offset => ?_) (supplied_unexpected _)
        refine (suppliedBy_captured (by decide)).seq fun name => ?_
        exact (supplied_elementName name offset).seq fun _ => supplied_pure _
      · exact supplied_pure _

theorem supplied_sequenceType (resume : LexicalState) : Supplied (sequenceType resume) :=
  supplied_sequenceTypeOf (supplied_steps itemTypeWithin supplied_itemTypeWithin) resume

theorem supplied_singleType : Supplied singleType := by
  refine (supplied_goto _).seq fun _ => supplied_expectCaptures (spares_start.bind fun offset => ?_)
  refine (suppliedBy_captured (by decide)).seq fun name => ?_
  refine (supplied_elementName name offset).seq fun typeName => ?_
  refine (supplied_goto _).seq fun _ => ?_
  exact (supplied_eat _).seq fun _ => (supplied_goto _).seq fun _ => supplied_pure _

theorem supplied_typedVariable : Supplied typedVariable :=
  supplied_variableName.seq fun _ => (supplied_whenEats (supplied_sequenceType _)).seq fun _ => supplied_pure _

/-! ### Match options -/

/-- A constant is read and something is made of it; the other captures are still there. -/
theorem suppliedBy_constant {α : Type} {kinds : List Placeholder} {i : Nat} {next : LiteralNode → Parser α}
    (h : kinds[i]? = some .number) (hn : ∀ constant, SuppliedBy kinds (next constant)) :
    SuppliedBy kinds (capturedConstant i >>= next) := by
  simp only [capturedConstant, bind_assoc, pure_bind]
  exact suppliedBy_read h fun _ => spares_start.bind fun _ => spares_get.bind fun _ => hn _

theorem supplied_thesaurusLevels : Supplied thesaurusLevels := by
  have hlast {α : Type} {r : Rule} {i : Nat} {form : LiteralNode → α}
      (h : (capturedKinds r.items)[i]? = some .number) :
      SuppliedBy (capturedKinds r.items) (do return some (form (← capturedConstant i))) :=
    suppliedBy_constant h fun _ => (supplied_pure _).behind
  refine supplied_ifCaptures (hlast (by decide)) (supplied_ifCaptures (hlast (by decide))
    (supplied_ifCaptures (hlast (by decide)) (supplied_ifCaptures ?_ (supplied_pure _))))
  exact suppliedBy_constant (by decide) fun _ => hlast (by decide)

theorem supplied_thesaurusId : Supplied thesaurusId := by
  refine supplied_expectCaptures ((suppliedBy_captured (by decide)).seq fun location => ?_)
  refine (supplied_whenCaptures (suppliedBy_captured (by decide))).seq fun relationship => ?_
  refine supplied_thesaurusLevels.seq fun levels => supplied_ite ?_ (supplied_pure _)
  exact (supplied_expect _).seq fun _ => supplied_pure _

theorem supplied_thesaurusOption : Supplied thesaurusOption := by
  have hthesaurus : Supplied thesaurus := supplied_ifEat (supplied_pure _) supplied_thesaurusId.some
  have hend (thesauri : List (Option FtThesaurusId)) : Supplied (do
      goto .operator
      return FtThesaurusOption.mk true (thesauri.any Option.isNone) (thesauri.filterMap id)) :=
    (supplied_goto _).seq fun _ => supplied_pure _
  refine supplied_ifEat ?_ ((supplied_map _ hthesaurus).seq hend)
  exact (supplied_separatedBy hthesaurus).seq fun thesauri => (supplied_expect _).seq fun _ => hend thesauri

theorem supplied_stopWordList : Supplied stopWordList := by
  -- The string is read behind an alternative that has stopped where there is none.
  have hword : SuppliedBy (capturedKinds Terminal.ftListString.items) (capturedString 0) :=
    suppliedBy_captured (by decide)
  refine (supplied_separatedBy ?_).seq fun words => (supplied_expect _).seq fun _ => supplied_pure _
  exact (tests_eat _).bind hword supplied_unexpected_bind

theorem supplied_furtherStopWords : Supplied furtherStopWords := by
  refine supplied_mark.seq fun place => (supplied_eatFirst _).seq fun combine => ?_
  refine supplied_ite (supplied_pure _) (supplied_ifCaptures ?_ (supplied_ifEat ?_ ?_))
  · exact (suppliedBy_captured (by decide)).seq fun _ => supplied_pure _
  · exact supplied_stopWordList.seq fun _ => supplied_pure _
  -- A mark does not bring captures back, and behind it none are read.
  · exact (supplied_restore _).seq fun _ => supplied_pure _

theorem supplied_firstStopWords : Supplied firstStopWords :=
  supplied_ifEat (supplied_pure _)
    (supplied_ifCaptures ((suppliedBy_captured (by decide)).seq fun _ => supplied_pure _)
    (supplied_ifEat (supplied_stopWordList.seq fun _ => supplied_pure _) (supplied_pure _)))

theorem supplied_stopWordOption : Supplied stopWordOption := by
  refine supplied_ifEat (supplied_pure _) (supplied_firstStopWords.seq ?_)
  rintro (_ | words)
  · exact supplied_pure _
  · exact (supplied_many supplied_furtherStopWords).seq fun _ => supplied_pure _

theorem supplied_matchOption (offset : Nat) : Supplied (matchOption offset) := by
  refine (supplied_eatFirst _).seq ?_
  rintro (_ | option)
  · refine supplied_ifCaptures ?_ (supplied_ifCaptures ?_ (supplied_ifEat (supplied_pure _)
      (supplied_ifEat (supplied_thesaurusOption.seq fun _ => supplied_pure _) (supplied_stopWordOption.seq ?_))))
    · exact (suppliedBy_captured (by decide)).seq fun _ => supplied_pure _
    · refine suppliedBy_read (by decide) fun name => (suppliedBy_captured (by decide)).seq fun value => ?_
      exact (supplied_plainName name offset).seq fun _ => supplied_pure _
    · rintro (_ | words)
      · exact supplied_unexpected _
      · exact supplied_pure _
  · exact supplied_pure option

theorem supplied_matchOptions : Supplied matchOptions := by
  refine supplied_iterate (fun options => supplied_ifEat ?_ (supplied_pure _)) _
  refine (supplied_observe _).seq fun offset => (supplied_matchOption offset).seq fun option => ?_
  exact supplied_ite ((supplied_record _ _ _).seq fun _ => supplied_pure _) (supplied_pure _)

/-! ### Selections -/

theorem supplied_expr {single : Parser Expr} (h : Supplied single) : Supplied (expr single) := by
  refine h.seq fun first => (supplied_peek _).seq fun more => supplied_ite (supplied_pure _) ?_
  exact (supplied_many (supplied_whenEats h)).seq fun _ => supplied_node _ _

theorem supplied_bracedExpr {single : Parser Expr} (h : Supplied single) : Supplied (bracedExpr single) :=
  (supplied_expect _).seq fun _ => (supplied_expr h).seq fun _ => (supplied_expect _).seq fun _ => supplied_pure _

theorem supplied_pragmas : Supplied pragmas := by
  have hpragma : Supplied pragma? := by
    refine supplied_whenCaptures (spares_start.bind fun offset => ?_)
    refine (suppliedBy_captured (by decide)).seq fun name => ?_
    exact (supplied_plainName name offset).seq fun _ => (supplied_lexeme _).seq fun _ => supplied_pure _
  refine (supplied_many hpragma).seq ?_
  rintro (_ | ⟨⟨first, offset⟩, rest⟩)
  · exact (supplied_observe _).seq fun _ => supplied_pure _
  · exact supplied_pure _

theorem supplied_ftUnit : Supplied ftUnit := by
  refine (supplied_eatFirst _).seq ?_
  rintro (_ | unit)
  · exact supplied_unexpected _
  · exact supplied_pure unit

theorem supplied_ftBigUnit : Supplied ftBigUnit := by
  refine (supplied_eatFirst _).seq ?_
  rintro (_ | unit)
  · exact supplied_unexpected _
  · exact supplied_pure unit

theorem supplied_ftAnyAll : Supplied ftAnyAll := (supplied_eatFirst _).seq fun _ => supplied_pure _

section

variable {single additive : Parser Expr} {selection : Parser (FtSelection Expr)}

theorem supplied_ftRange (h : Supplied additive) : Supplied (ftRange additive) := by
  have hone (form : Expr → FtRange Expr) : Supplied (do return form (← additive)) :=
    h.seq fun _ => supplied_pure _
  refine supplied_ifEat (hone _) (supplied_ifEat (hone _) (supplied_ifEat (hone _) (supplied_ifEat ?_
    (supplied_unexpected _))))
  exact h.seq fun _ => (supplied_expect _).seq fun _ => h.seq fun _ => supplied_pure _

theorem supplied_ftPosFilter (h : Supplied additive) : Supplied (ftPosFilter additive) := by
  refine supplied_ifEat (supplied_pure _) (supplied_ifEat ?_ (supplied_ifEat ?_ (supplied_ifEat ?_
    (supplied_ifEat ?_ (supplied_eatFirst _)))))
  · exact h.seq fun _ => supplied_ftUnit.seq fun _ => supplied_pure _
  · exact (supplied_ftRange h).seq fun _ => supplied_ftUnit.seq fun _ => supplied_pure _
  · exact supplied_ftBigUnit.seq fun _ => supplied_pure _
  · exact supplied_ftBigUnit.seq fun _ => supplied_pure _

theorem supplied_ftTimes (h : Supplied additive) : Supplied (ftTimes additive) :=
  supplied_whenEats ((supplied_ftRange h).seq fun _ => (supplied_expect _).seq fun _ => supplied_pure _)

theorem supplied_ftWords (hs : Supplied single) (ha : Supplied additive) : Supplied (ftWords single additive) := by
  refine supplied_ifCaptures ?_ (supplied_ifEat ?_ (supplied_unexpected _))
  · refine (suppliedBy_captured (by decide)).seq fun text => supplied_ftAnyAll.seq fun mode => ?_
    exact (supplied_ftTimes ha).seq fun _ => supplied_pure _
  · refine (supplied_expr hs).seq fun e => (supplied_expect _).seq fun _ => supplied_ftAnyAll.seq fun mode => ?_
    exact (supplied_ftTimes ha).seq fun _ => supplied_pure _

theorem supplied_ftPrimary (hs : Supplied single) (ha : Supplied additive) (h : Supplied selection) :
    Supplied (ftPrimary single additive selection) := by
  refine supplied_ifPeek ?_ (supplied_ifEat ?_ (supplied_ftWords hs ha))
  · refine supplied_pragmas.seq fun ⟨ps, offset⟩ => (supplied_expect _).seq fun _ => ?_
    refine supplied_ifEat (supplied_pure _) ?_
    exact h.seq fun _ => (supplied_expect _).seq fun _ => supplied_pure _
  · exact h.seq fun _ => (supplied_expect _).seq fun _ => supplied_pure _

theorem supplied_ftUnaryNot (hs : Supplied single) (ha : Supplied additive) (h : Supplied selection) :
    Supplied (ftUnaryNot single additive selection) := by
  have hoptions : Supplied (ftPrimaryWithOptions single additive selection) := by
    refine (supplied_ftPrimary hs ha h).seq fun primary => supplied_matchOptions.seq fun options => ?_
    refine (supplied_whenEats (supplied_bracedExpr hs)).seq fun weight => ?_
    exact supplied_ite (supplied_pure _) (supplied_pure _)
  exact supplied_ifEat (hoptions.seq fun _ => supplied_pure _) hoptions

theorem supplied_ftOr (hs : Supplied single) (ha : Supplied additive) (h : Supplied selection) :
    Supplied (ftOr single additive selection) :=
  supplied_map _ (supplied_separatedBy (supplied_map _ (supplied_separatedBy (supplied_map _ (supplied_separatedBy
    (supplied_ftUnaryNot hs ha h))))))

theorem supplied_ftSelection (hs : Supplied single) (ha : Supplied additive) :
    Supplied (ftSelection single additive) := by
  refine supplied_steps (ftSelectionWithin single additive) fun steps => ?_
  induction steps with
  | zero => exact supplied_exhausted
  | succ steps ih =>
    refine supplied_nested ((supplied_ftOr hs ha ih).seq fun inner => ?_)
    refine (supplied_many (supplied_ftPosFilter ha)).seq ?_
    rintro (_ | ⟨filter, filters⟩)
    · exact supplied_pure _
    · exact supplied_pure _

end

variable {single : Parser Expr}

/-! ### Expressions in braces -/

theorem supplied_exprUpToBrace? (h : Supplied single) : Supplied (exprUpToBrace? single) :=
  supplied_ifEat (supplied_pure _) ((supplied_expr h).seq fun _ => (supplied_expect _).seq fun _ => supplied_pure _)

theorem supplied_exprUpToBrace (h : Supplied single) (offset : Nat) : Supplied (exprUpToBrace single offset) := by
  refine (supplied_exprUpToBrace? h).seq ?_
  rintro (_ | e)
  · exact supplied_node _ _
  · exact supplied_pure e

theorem supplied_enclosedExpr (h : Supplied single) : Supplied (enclosedExpr single) :=
  (supplied_expect _).seq fun _ => (supplied_observe _).seq fun offset => supplied_exprUpToBrace h offset

theorem supplied_optionalExpr (h : Supplied single) : Supplied (optionalExpr single) :=
  (supplied_expect _).seq fun _ => supplied_exprUpToBrace? h

theorem supplied_parenthesizedExpr (h : Supplied single) : Supplied (parenthesizedExpr single) :=
  (supplied_expect _).seq fun _ => (supplied_expr h).seq fun _ => (supplied_expect _).seq fun _ => supplied_pure _

theorem supplied_extensionExpr (h : Supplied single) : Supplied (extensionExpr single) :=
  supplied_pragmas.seq fun ⟨_, _⟩ => (supplied_optionalExpr h).seq fun _ => supplied_node _ _

/-! ### Clauses -/

theorem supplied_positionalVariable (name : QName) : Supplied (positionalVariable name) := by
  refine (supplied_observe _).seq fun _ => supplied_variableName.seq fun _ => supplied_ite ?_ (supplied_pure _)
  exact (supplied_record _ _ _).seq fun _ => supplied_pure _

theorem supplied_forBinding (h : Supplied single) : Supplied (forBinding single) := by
  refine (supplied_observe _).seq fun _ => supplied_typedVariable.seq fun ⟨name, _⟩ => ?_
  refine (supplied_eat _).seq fun _ => (supplied_whenEats (supplied_positionalVariable name)).seq fun _ => ?_
  refine (supplied_whenEats supplied_variableName).seq fun _ => (supplied_expect _).seq fun _ => ?_
  exact h.seq fun _ => supplied_pure _

theorem supplied_letBinding (h : Supplied single) (score : Bool) : Supplied (letBinding single score) := by
  refine (supplied_observe _).seq fun offset => ?_
  have hend (binding : QName × Option SequenceType) : Supplied (do
      expect Terminal.assign
      let value ← single
      return LetBinding.mk binding.1 binding.2 score value offset) :=
    (supplied_expect _).seq fun _ => h.seq fun _ => supplied_pure _
  exact supplied_ite ((supplied_map _ supplied_variableName).seq hend) (supplied_typedVariable.seq hend)

theorem supplied_letBindings (h : Supplied single) (score : Bool) : Supplied (letBindings single score) := by
  refine (supplied_letBinding h score).seq fun first => ?_
  exact (supplied_many (supplied_whenEats (supplied_letBinding h false))).seq fun _ => supplied_pure _

theorem supplied_windowCondition (h : Supplied single) (only : Bool) : Supplied (windowCondition single only) := by
  have hvariable (r : Rule) : Supplied (whenEats r variableName) := supplied_whenEats supplied_variableName
  have hend (current : Option QName) : Supplied (do
      let positional ← whenEats Terminal.windowAt variableName
      let previous ← whenEats Terminal.windowPrevious variableName
      let next ← whenEats Terminal.windowNext variableName
      expect Terminal.whenCondition
      let condition ← single
      return WindowCondition.mk only ⟨current, positional, previous, next⟩ condition) := by
    refine (hvariable _).seq fun _ => (hvariable _).seq fun _ => (hvariable _).seq fun _ => ?_
    exact (supplied_expect _).seq fun _ => h.seq fun _ => supplied_pure _
  exact supplied_ifPeek ((supplied_map _ supplied_variableName).seq hend) ((supplied_pure _).seq hend)

theorem supplied_windowEnd (h : Supplied single) (kind : WindowKind) : Supplied (windowEnd single kind) := by
  have hsome (only : Bool) := (supplied_windowCondition h only).some
  refine supplied_ifEat (hsome true) (supplied_ifEat (hsome false) (supplied_ite ?_ (supplied_pure none)))
  exact (supplied_unexpected _).seq fun _ => supplied_pure none

theorem supplied_windowClause (h : Supplied single) (kind : WindowKind) : Supplied (windowClause single kind) := by
  refine (supplied_observe _).seq fun offset => supplied_typedVariable.seq fun ⟨name, _⟩ => ?_
  refine (supplied_expect _).seq fun _ => h.seq fun source => (supplied_expect _).seq fun _ => ?_
  refine (supplied_windowCondition h false).seq fun first => (supplied_windowEnd h kind).seq fun last => ?_
  exact (supplied_forIn (fun n => supplied_record _ _ _) _).seq fun _ => supplied_pure _

theorem supplied_initialClause (h : Supplied single) : Supplied (initialClause single) := by
  refine supplied_ifEat (supplied_windowClause h _).some (supplied_ifEat (supplied_windowClause h _).some
    (supplied_ifEat ?_ (supplied_ifEat (supplied_letBindings h _).some
    (supplied_ifEat (supplied_letBindings h _).some
    (supplied_pure none)))))
  exact (supplied_separatedBy (supplied_forBinding h)).seq fun _ => supplied_pure _

theorem supplied_clause (h : Supplied single) : Supplied (clause single) := by
  refine (supplied_initialClause h).seq ?_
  rintro (_ | c)
  · exact supplied_ifEat (h.seq fun _ => supplied_pure _)
      (supplied_ifEat (supplied_variableName.seq fun _ => supplied_pure _) (supplied_pure none))
  · exact supplied_pure _

theorem supplied_collation : Supplied collation := supplied_whenCaptures (suppliedBy_captured (by decide))

theorem supplied_groupingSpec (h : Supplied single) (bound : List ExpandedName) :
    Supplied (groupingSpec single bound) := by
  refine (supplied_observe _).seq fun offset => supplied_variableName.seq fun name => ?_
  refine (supplied_whenEats h).seq fun value => ?_
  have hend : Supplied (do return GroupingSpec.mk name value (← collation)) :=
    supplied_collation.seq fun _ => supplied_pure _
  exact supplied_ite ((supplied_record _ _ _).seq fun _ => hend) hend

theorem supplied_orderSpec (h : Supplied single) : Supplied (orderSpec single) :=
  h.seq fun _ => (supplied_eatFirst _).seq fun _ => (supplied_eatFirst _).seq fun _ =>
    supplied_collation.seq fun _ => supplied_pure _

theorem supplied_ordering (h : Supplied single) : Supplied (ordering single) := by
  refine (supplied_eatFirst _).seq ?_
  rintro (_ | stable)
  · exact supplied_pure _
  · exact (supplied_separatedBy (supplied_orderSpec h)).seq fun _ => supplied_pure _

theorem supplied_postGroupClause (h : Supplied single) : Supplied (postGroupClause single) := by
  refine (supplied_clause h).seq ?_
  rintro (_ | c)
  · refine supplied_ifEat ((supplied_observe _).seq fun _ => ?_) (supplied_pure none)
    exact (supplied_fatal _ _ _).seq fun _ => supplied_pure none
  · exact supplied_pure _

theorem supplied_flwor (h : Supplied single) : Supplied (flwor single) := by
  refine (supplied_observe _).seq fun offset => (supplied_initialClause h).seq ?_
  rintro (_ | first)
  · exact supplied_pure none
  refine (supplied_many (supplied_clause h)).seq fun more => ?_
  cases Clause.splitCondition (first :: more) with | mk clauses condition
  have hend (groupBy : List (GroupingSpec Expr)) (postGroup : List (Clause Expr)) : Supplied (do
      let order ← ordering single
      expect Terminal.returnClause
      let result ← single
      return some (← node (.flwor
        ⟨clauses, condition, groupBy, postGroup, order.1, order.2, result⟩) offset)) :=
    (supplied_ordering h).seq fun _ => (supplied_expect _).seq fun _ => h.seq fun _ => (supplied_node _ _).some
  refine (supplied_eat _).seq ?_
  rintro (_ | _)
  · exact hend [] []
  · exact (supplied_separatedBy (supplied_groupingSpec h _)).seq fun groupBy =>
      (supplied_many (supplied_postGroupClause h)).seq fun postGroup => hend groupBy postGroup

/-! ### Updates -/

theorem supplied_insertPosition : Supplied insertPosition := by
  refine (supplied_eatFirst _).seq ?_
  rintro (_ | position)
  · exact supplied_unexpected _
  · exact supplied_pure position

theorem supplied_replace (h : Supplied single) (valueOf : Bool) : Supplied (replace single valueOf) :=
  h.seq fun _ => (supplied_expect _).seq fun _ => h.seq fun _ => supplied_pure _

theorem supplied_transform (h : Supplied single) : Supplied (transform single) := by
  have hcopy : Supplied (copyBinding single) :=
    supplied_variableName.seq fun _ => (supplied_expect _).seq fun _ => h.seq fun _ => supplied_pure _
  refine (supplied_separatedBy hcopy).seq fun bindings => (supplied_expect _).seq fun _ => ?_
  exact h.seq fun modify => (supplied_expect _).seq fun _ => h.seq fun result => supplied_pure _

theorem supplied_updateKind (h : Supplied single) : Supplied (updateKind single) := by
  refine (supplied_eatFirst _).seq fun _ => supplied_ite ?_ ((supplied_eatFirst _).seq fun _ => supplied_ite ?_
    (supplied_ifEat (supplied_replace h _).some (supplied_ifEat (supplied_replace h _).some
    (supplied_ifEat ?_ (supplied_whenEats (supplied_transform h))))))
  · exact h.seq fun _ => supplied_insertPosition.seq fun _ => h.seq fun _ => supplied_pure _
  · exact h.seq fun _ => supplied_pure _
  · exact h.seq fun _ => (supplied_expect _).seq fun _ => h.seq fun _ => supplied_pure _

/-- A node made of a form that may not be there. -/
theorem supplied_form {p : Parser (Option (ExprKind Expr))} (h : Supplied p) : Supplied (do
    let offset ← nextOffset
    match ← p with
    | none => return none
    | some kind => return some (← node kind offset)) := by
  refine (supplied_observe _).seq fun offset => h.seq ?_
  rintro (_ | kind)
  · exact supplied_pure none
  · exact (supplied_node _ _).some

theorem supplied_updateExpr (h : Supplied single) : Supplied (updateExpr single) :=
  supplied_form (supplied_updateKind h)

/-! ### Statements -/

theorem supplied_blockDeclaration (h : Supplied single) : Supplied (blockDeclaration single) := by
  have hvariable : Supplied (blockVariable single) :=
    supplied_typedVariable.seq fun ⟨_, _⟩ => (supplied_whenEats h).seq fun _ => supplied_pure _
  refine supplied_whenEats ((supplied_separatedBy hvariable).seq fun declared => ?_)
  exact (supplied_expect _).seq fun _ => supplied_pure declared

theorem supplied_blockStatement (h : Supplied single) (body : List Expr) :
    Supplied (blockStatement single body) := by
  refine supplied_ifEat (supplied_pure _) ((supplied_expr h).seq fun e => supplied_ifEat (supplied_pure _) ?_)
  exact (supplied_expect _).seq fun _ => supplied_pure _

theorem supplied_blockBody (h : Supplied single) (offset : Nat) : Supplied (blockBody single offset) :=
  (supplied_many (supplied_blockDeclaration h)).seq fun _ =>
    (supplied_iterate (supplied_blockStatement h) _).seq fun _ => supplied_node _ _

theorem supplied_statementKind (h : Supplied single) : Supplied (statementKind single) := by
  refine supplied_ifEat ?_ ((supplied_eatFirst _).seq fun _ => supplied_ite (h.seq fun _ => supplied_pure _)
    (supplied_ifEat (supplied_pure _) (supplied_ifEat (supplied_pure _) (supplied_ifEat ?_
    (supplied_ifCaptures ?_ (supplied_pure none))))))
  · exact (supplied_parenthesizedExpr h).seq fun _ => (supplied_goto _).seq fun _ => h.seq fun _ => supplied_pure _
  · exact supplied_variableName.seq fun _ => (supplied_expect _).seq fun _ => h.seq fun _ => supplied_pure _
  · refine spares_start.bind fun offset => (suppliedBy_captured (by decide)).seq fun name => ?_
    exact (supplied_plainName name offset).seq fun _ => h.seq fun _ => supplied_pure _

theorem supplied_scriptingExpr (h : Supplied single) : Supplied (scriptingExpr single) := by
  refine (supplied_observe _).seq fun offset => supplied_ifEat ?_ ((supplied_statementKind h).seq ?_)
  · exact (supplied_expect _).seq fun _ => (supplied_blockBody h offset).some
  · rintro (_ | kind)
    · exact supplied_pure none
    · exact (supplied_node _ _).some

theorem supplied_queryBody (h : Supplied single) : Supplied (queryBody single) := by
  refine (supplied_observe _).seq fun offset => (supplied_expr h).seq fun first => (supplied_eat _).seq fun _ => ?_
  refine supplied_ite (supplied_pure first) ((supplied_iterate (fun body => ?_) _).seq fun _ => supplied_node _ _)
  refine supplied_atEnd.seq fun _ => supplied_ite (supplied_pure _) ((supplied_expr h).seq fun e => ?_)
  exact supplied_ifEat (supplied_pure _) (supplied_pure _)

/-! ### Functions -/

theorem supplied_annotationLiterals : Supplied annotationLiterals := by
  have hliteral : Supplied annotationLiteral :=
    supplied_ifCaptures ((suppliedBy_captured (by decide)).seq fun _ => supplied_pure _)
      (supplied_ifCaptures ((suppliedBy_captured (by decide)).seq fun _ => supplied_pure _)
      (supplied_unexpected _))
  refine supplied_ifEat ((supplied_separatedBy hliteral).seq fun values => ?_) (supplied_pure _)
  exact (supplied_expect _).seq fun _ => supplied_pure values

theorem supplied_annotation? : Supplied annotation? := by
  refine supplied_whenCaptures (spares_start.bind fun offset => ?_)
  refine (suppliedBy_captured (by decide)).seq fun name => ?_
  refine (supplied_resolveName name _ offset).seq fun _ => ?_
  exact supplied_annotationLiterals.seq fun _ => supplied_pure _

theorem supplied_annotationList : Supplied annotationList := by
  refine supplied_iterate (fun annotations => supplied_annotation?.seq ?_) _
  rintro (_ | ⟨a, offset⟩)
  · exact supplied_pure _
  · exact supplied_ite ((supplied_record _ _ _).seq fun _ => supplied_pure _) (supplied_pure _)

theorem supplied_declaredType : Supplied declaredType := supplied_whenEats (supplied_sequenceType _)

theorem supplied_param (params : List Param) : Supplied (param params) := by
  refine supplied_expectCaptures (spares_start.bind fun offset => ?_)
  refine (suppliedBy_captured (by decide)).seq fun name => (supplied_plainName name offset).seq fun name => ?_
  have hend : Supplied (do return Param.mk name (← declaredType)) :=
    supplied_declaredType.seq fun _ => supplied_pure _
  exact supplied_ite ((supplied_record _ _ _).seq fun _ => hend) hend

theorem supplied_paramList : Supplied paramList := by
  refine supplied_ifEat (supplied_pure _) ((supplied_iterate (fun params => ?_) _).seq fun params => ?_)
  · exact (supplied_param params).seq fun p => supplied_ifEat (supplied_pure _) (supplied_pure _)
  · exact (supplied_expect _).seq fun _ => supplied_pure params

theorem supplied_functionBody (h : Supplied single) (statements : Bool) (offset : Nat) :
    Supplied (functionBody single statements offset) :=
  supplied_ite (supplied_blockBody h offset) (supplied_exprUpToBrace h offset)

theorem supplied_inlineFunction (h : Supplied single) : Supplied (inlineFunction single) := by
  refine (supplied_observe _).seq fun offset => supplied_annotationList.seq fun annotations => ?_
  refine (supplied_expect _).seq fun _ => (supplied_expect _).seq fun _ => supplied_paramList.seq fun params => ?_
  refine supplied_declaredType.seq fun type => (supplied_expect _).seq fun _ => ?_
  refine (supplied_observe _).seq fun place => (supplied_functionBody h false place).seq fun _ => ?_
  exact supplied_node _ _

end XQuerySyntax.Parser
