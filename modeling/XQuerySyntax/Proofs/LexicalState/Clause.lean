import XQuerySyntax.Proofs.LexicalState.Course

/-! The lexical states of types and clauses. A type is entered from any state and left to the state that its
caller names; inside it only the two states of types occur. Sequences, clauses, updates, statements and
functions are each given over a parser that reads an operand, and read an operand themselves, stay behind one,
or begin with a rule that makes an operand come next. -/

namespace XQuerySyntax.Grammar

open XQuerySyntax.Parser

variable {S : List LexicalState} {k : StateStack}

/-! ### Names -/

theorem keeps_resolveQualifier (qualifier : String) (offset : Nat) :
    Keeps (resolveQualifier qualifier offset) := by
  refine (keeps_consult _).seq fun uri => fun k => course_ite (fun _ => ?_) fun _ => leads_pure rfl
  exact (keeps_record _ _ _).bind fun _ => leads_pure rfl

theorem keeps_resolveName (name : LexicalName) (default : Option String) (offset : Nat) :
    Keeps (resolveName name default offset) := by
  unfold resolveName
  split
  · exact (keeps_resolveQualifier _ offset).seq fun _ => keeps_pure _
  · exact keeps_pure _

theorem keeps_elementName (name : LexicalName) (offset : Nat) : Keeps (elementName name offset) :=
  (keeps_consult _).seq fun _ => keeps_resolveName name _ offset

theorem keeps_functionName (name : LexicalName) (offset : Nat) : Keeps (functionName name offset) :=
  (keeps_consult _).seq fun _ => keeps_resolveName name _ offset

theorem keeps_plainName (name : LexicalName) (offset : Nat) : Keeps (plainName name offset) :=
  keeps_resolveName name none offset

/-- A variable ends an operand wherever it stands. -/
theorem leads_variableName : Leads k variableName fun _ => k.goto .operator := by
  refine leads_bind (leads_expect rfl) fun _ => ?_
  refine keeps_start.bind fun offset => (keeps_capturedQualifiedName 0).bind fun name => ?_
  exact keeps_plainName name offset _

/-- A name test ends an operand wherever it stands. -/
theorem leads_nameTest (default : Option String) :
    Leads k (nameTest default) fun found => found.elim k fun _ => k.goto .operator := by
  refine course_ifEat rfl ?_ (course_ifEat rfl ?_ (course_ifEat rfl ?_ (course_ifEat rfl ?_ ?_)))
  · exact (keeps_capturedName 0).bind fun _ => leads_pure rfl
  · refine keeps_start.bind fun offset => (keeps_capturedName 0).bind fun qualifier => ?_
    exact (keeps_resolveQualifier qualifier offset).bind fun _ => leads_pure rfl
  · exact leads_pure rfl
  · refine keeps_start.bind fun offset => (keeps_capturedQualifiedName 0).bind fun name => ?_
    exact (keeps_resolveName name default offset).bind fun _ => leads_pure rfl
  · exact leads_pure rfl

theorem keeps_checkBinding (qualifier uri : String) (offset : Nat) :
    Keeps (checkBinding qualifier uri offset) := by
  refine fun k => course_ite (fun _ => keeps_record _ _ _ k) fun _ => ?_
  exact course_ite (fun _ => keeps_record _ _ _ k) fun _ => leads_pure rfl

theorem keeps_checkDefaultNamespace (uri : String) (offset : Nat) :
    Keeps (checkDefaultNamespace uri offset) :=
  fun k => course_ite (fun _ => keeps_record _ _ _ k) fun _ => leads_pure rfl

/-! ### Kind tests -/

theorem keeps_elementTestName (isElement : Bool) : Keeps (elementTestName isElement) := by
  refine keeps_ifEat rfl (keeps_pure _) (keeps_ifEat rfl ?_ (keeps_unexpected _))
  refine keeps_start.seq fun offset => (keeps_capturedQualifiedName 0).seq fun name => ?_
  refine keeps_ite ?_ ?_
  · exact (keeps_elementName name offset).seq fun _ => keeps_pure _
  · exact (keeps_plainName name offset).seq fun _ => keeps_pure _

theorem keeps_elementTestArgs (isElement : Bool) : Keeps (elementTestArgs isElement) := by
  refine keeps_ifEat rfl (keeps_pure _) ?_
  refine (keeps_elementTestName isElement).seq fun name => ?_
  refine (keeps_whenEats rfl ?_).seq fun _ => (keeps_expect rfl).seq fun _ => keeps_pure _
  refine (keeps_expect rfl).seq fun _ => keeps_start.seq fun offset => ?_
  refine (keeps_capturedQualifiedName 0).seq fun typeName => ?_
  refine (keeps_elementName typeName offset).seq fun _ => keeps_ite ?_ ?_
  · exact (keeps_eat rfl).seq fun _ => keeps_pure _
  · exact (keeps_pure false).seq fun _ => keeps_pure _

theorem keeps_schemaTestName (isElement : Bool) : Keeps (schemaTestName isElement) := by
  refine (keeps_expect rfl).seq fun _ => keeps_start.seq fun offset => ?_
  refine (keeps_capturedQualifiedName 0).seq fun name => keeps_ite ?_ ?_
  · exact (keeps_elementName name offset).seq fun _ => (keeps_expect rfl).seq fun _ => keeps_pure _
  · exact (keeps_plainName name offset).seq fun _ => (keeps_expect rfl).seq fun _ => keeps_pure _

theorem keeps_processingInstructionTarget : Keeps processingInstructionTarget := by
  refine keeps_ifEat rfl ?_ (keeps_ifEat rfl ?_ (keeps_pure _))
  · exact (keeps_capturedName 0).seq fun _ => keeps_pure _
  · exact (keeps_capturedString 0).seq fun _ => keeps_pure _

theorem leads_documentTestRoot : Leads ⟨.kindTest, S⟩ documentTestRoot fun _ => ⟨.kindTest, S⟩ := by
  refine course_ifEat rfl ?_ (course_ifEat rfl ?_ (leads_pure rfl))
  · exact (keeps_elementTestArgs true).bind fun _ => leads_pure rfl
  · exact (keeps_schemaTestName true).bind fun _ => leads_pure rfl

/-- A kind test is read among types, whatever the state in front of it. -/
theorem leads_kindTest :
    Leads k kindTest fun found => found.elim k fun _ => k.goto .kindTest := by
  refine course_ifEat rfl ?_ (course_ifEat rfl ?_ (course_ifEat rfl ?_ (course_ifEat rfl ?_
    (course_ifEat rfl ?_ (course_ifEat rfl ?_ ?_)))))
  · refine leads_bind leads_documentTestRoot fun _ => ?_
    exact (keeps_expect rfl).bind fun _ => leads_pure rfl
  · exact (keeps_elementTestArgs true).bind fun _ => leads_pure rfl
  · exact (keeps_elementTestArgs false).bind fun _ => leads_pure rfl
  · exact (keeps_schemaTestName true).bind fun _ => leads_pure rfl
  · exact (keeps_schemaTestName false).bind fun _ => leads_pure rfl
  · refine keeps_processingInstructionTarget.bind fun _ => ?_
    exact (keeps_expect rfl).bind fun _ => leads_pure rfl
  · refine leads_bind (leads_eatFirst (t := .goto .kindTest) rfl ?_) ?_
    · simp only [List.forall_mem_cons]
      exact ⟨rfl, rfl, rfl, rfl, fun _ h => nomatch h⟩
    · rintro (_ | test)
      · exact leads_pure rfl
      · exact (keeps_expect rfl).bind fun _ => leads_pure rfl

/-! ### Sequence types -/

theorem keeps_occurrence : Keeps occurrence := by
  refine (keeps_eatFirst ?_).seq fun _ => keeps_pure _
  simp only [List.forall_mem_cons]
  exact ⟨rfl, rfl, rfl, fun _ h => nomatch h⟩

theorem leads_sequenceTypeOf {itemType : Parser ItemType}
    (h : ∀ S, Leads ⟨.kindTest, S⟩ itemType fun _ => ⟨.kindTest, S⟩) (resume : LexicalState) :
    Leads k (sequenceTypeOf itemType resume) fun _ => k.goto resume := by
  refine leads_bind (leads_goto _) fun _ => course_ifEat rfl ?_ ?_
  · exact leads_bind (leads_goto resume) fun _ => leads_pure rfl
  · refine leads_bind (course_nested (h k.saved)) fun inner => ?_
    refine leads_bind (leads_goto _) fun _ => keeps_occurrence.bind fun times => ?_
    exact leads_bind (leads_goto resume) fun _ => leads_pure rfl

theorem leads_functionTest {itemType : Parser ItemType}
    (h : ∀ S, Leads ⟨.kindTest, S⟩ itemType fun _ => ⟨.kindTest, S⟩) :
    Leads ⟨.kindTest, S⟩ (functionTest itemType) fun _ => ⟨.kindTest, S⟩ := by
  have hresult (params : List SequenceType) : Leads ⟨.kindTest, S⟩ (do
      expect Terminal.kindAs
      return ItemType.functionTest params (← sequenceTypeOf itemType .kindTest))
      fun _ => ⟨.kindTest, S⟩ :=
    (keeps_expect rfl).bind fun _ =>
      leads_bind (leads_sequenceTypeOf h .kindTest) fun _ => leads_pure rfl
  refine course_ifEat rfl ((keeps_pure _).bind hresult) ?_
  refine leads_bind (leads_separatedBy rfl (leads_sequenceTypeOf h _) (leads_sequenceTypeOf h _)) ?_
  exact fun params => (keeps_expect rfl).bind fun _ => (keeps_pure params).bind hresult

theorem leads_itemTypeWithin (n : Nat) :
    Leads ⟨.kindTest, S⟩ (itemTypeWithin n) fun _ => ⟨.kindTest, S⟩ := by
  induction n generalizing S with
  | zero => exact course_exhausted
  | succ n ih =>
    refine course_ifEat rfl (leads_pure rfl) (course_ifEat rfl (leads_pure rfl)
      (course_ifEat rfl ?_ (course_ifEat rfl ?_ (leads_bind leads_kindTest ?_))))
    · exact leads_functionTest fun _ => ih
    · exact leads_bind ih fun _ => (keeps_expect rfl).bind fun _ => leads_pure rfl
    · rintro (_ | test)
      · refine course_ifEat rfl ?_ (course_unexpected _)
        refine keeps_start.bind fun offset => (keeps_capturedQualifiedName 0).bind fun name => ?_
        exact (keeps_elementName name offset).bind fun _ => leads_pure rfl
      · exact leads_pure rfl

/-- A sequence type leaves the scanner in the state that its caller names. -/
theorem leads_sequenceType (resume : LexicalState) :
    Leads k (sequenceType resume) fun _ => k.goto resume :=
  leads_sequenceTypeOf (fun _ => keeps_get.bind fun _ => leads_itemTypeWithin _) resume

theorem leads_singleType : Leads k singleType fun _ => k.goto .operator := by
  refine leads_bind (leads_goto _) fun _ => (keeps_expect rfl).bind fun _ => ?_
  refine keeps_start.bind fun offset => (keeps_capturedQualifiedName 0).bind fun name => ?_
  refine (keeps_elementName name offset).bind fun _ => leads_bind (leads_goto _) fun _ => ?_
  exact (keeps_eat rfl).bind fun _ => leads_bind (leads_goto _) fun _ => leads_pure rfl

theorem leads_typedVariable : Leads k typedVariable fun _ => k.goto .operator := by
  refine leads_bind leads_variableName fun _ => ?_
  refine leads_bind (leads_whenEats_back rfl (leads_sequenceType .operator)) fun _ => ?_
  exact leads_pure rfl

variable {single : Parser Expr}

/-! ### Expressions with commas and in braces -/

theorem operand_expr (h : Operand single) : Operand (expr single) := by
  refine fun S => leads_bind (h S) fun first => (keeps_peek _).bind fun more => ?_
  refine course_ite (fun _ => leads_pure rfl) fun _ => ?_
  refine leads_bind (leads_many (leads_whenEats_back rfl (h S))) fun rest => ?_
  exact keeps_node _ _ _

theorem operand_exprUpToBrace? (h : Operand single) : Operand (exprUpToBrace? single) := by
  refine fun S => course_ifEat rfl (leads_pure rfl) (leads_bind (operand_expr h S) fun e => ?_)
  exact leads_bind (leads_expect rfl) fun _ => leads_pure rfl

theorem operand_exprUpToBrace (h : Operand single) (offset : Nat) :
    Operand (exprUpToBrace single offset) := by
  refine fun S => leads_bind (operand_exprUpToBrace? h S) ?_
  rintro (_ | e)
  · exact keeps_node _ _ _
  · exact leads_pure rfl

/-- A brace makes an operand come next, and the matching one ends an operand. -/
theorem leads_enclosedExpr (h : Operand single) :
    Leads k (enclosedExpr single) fun _ => k.goto .operator :=
  leads_bind (leads_expect rfl) fun _ => keeps_start.bind fun offset =>
    operand_exprUpToBrace h offset k.saved

theorem leads_bracedExpr (h : Operand single) :
    Leads k (bracedExpr single) fun _ => k.goto .operator := by
  refine leads_bind (leads_expect rfl) fun _ => leads_bind (operand_expr h k.saved) fun e => ?_
  exact leads_bind (leads_expect rfl) fun _ => leads_pure rfl

theorem leads_optionalExpr (h : Operand single) :
    Leads k (optionalExpr single) fun _ => k.goto .operator :=
  leads_bind (leads_expect rfl) fun _ => operand_exprUpToBrace? h k.saved

theorem operand_parenthesizedExpr (h : Operand single) : Operand (parenthesizedExpr single) := by
  refine fun S => leads_bind (leads_expect rfl) fun _ => leads_bind (operand_expr h S) fun e => ?_
  exact leads_bind (leads_expect rfl) fun _ => leads_pure rfl

theorem keeps_pragmas : Keeps pragmas := by
  refine (keeps_many (keeps_whenEats rfl ?_)).seq ?_
  · refine keeps_start.seq fun offset => (keeps_capturedQualifiedName 0).seq fun name => ?_
    refine (keeps_plainName name offset).seq fun _ => (keeps_lexeme _).seq fun _ => ?_
    exact keeps_pure _
  · rintro (_ | ⟨⟨first, offset⟩, rest⟩)
    · exact keeps_start.seq fun _ => keeps_pure _
    · exact keeps_pure _

theorem operand_extensionExpr (h : Operand single) : Operand (extensionExpr single) := by
  refine fun S => keeps_pragmas.bind fun ⟨ps, offset⟩ => ?_
  exact leads_bind (leads_optionalExpr h) fun e => keeps_node _ _ _

/-! ### Clauses -/

theorem leads_positionalVariable (name : QName) :
    Leads k (positionalVariable name) fun _ => k.goto .operator := by
  refine keeps_nextOffset.bind fun offset => leads_bind leads_variableName fun positional => ?_
  refine course_ite (fun _ => ?_) fun _ => leads_pure rfl
  exact (keeps_record _ _ _).bind fun _ => leads_pure rfl

theorem leads_forBinding (h : Operand single) :
    Leads k (forBinding single) fun _ => k.goto .operator := by
  refine keeps_nextOffset.bind fun offset => leads_bind leads_typedVariable fun ⟨name, type⟩ => ?_
  refine (keeps_eat rfl).bind fun allowingEmpty => ?_
  refine leads_bind (leads_whenEats_back rfl (leads_positionalVariable name)) fun positional => ?_
  refine leads_bind (leads_whenEats_back rfl leads_variableName) fun score => ?_
  refine leads_bind (leads_expect rfl) fun _ => ?_
  exact leads_bind (h k.saved) fun source => leads_pure rfl

theorem leads_letBinding (h : Operand single) (score : Bool) :
    Leads k (letBinding single score) fun _ => k.goto .operator := by
  have hend (offset : Nat) (binding : QName × Option SequenceType) :
      Leads (k.goto .operator) (do
        expect Terminal.assign
        let value ← single
        return LetBinding.mk binding.1 binding.2 score value offset) fun _ => k.goto .operator :=
    leads_bind (leads_expect rfl) fun _ => leads_bind (h k.saved) fun _ => leads_pure rfl
  refine keeps_nextOffset.bind fun offset => course_ite (fun _ => ?_) fun _ => ?_
  · exact leads_bind (leads_map _ leads_variableName) fun binding => hend offset binding
  · exact leads_bind leads_typedVariable fun binding => hend offset binding

theorem leads_letBindings (h : Operand single) (score : Bool) :
    Leads k (letBindings single score) fun _ => k.goto .operator := by
  refine leads_bind (leads_letBinding h score) fun first => ?_
  refine leads_bind (leads_many (leads_whenEats_back rfl (leads_letBinding h false))) fun rest => ?_
  exact leads_pure rfl

/-- The variables of a window may be there or not; the condition comes behind either. -/
theorem leads_windowCondition (h : Operand single) (only : Bool) :
    Leads k (windowCondition single only) fun _ => k.goto .operator := by
  have hvariable : Level variableName := fun k => course_weaken leads_variableName (by
    rintro _ _ rfl
    rfl)
  have hend (current : Option QName) (k' : StateStack) (hk : k'.saved = k.saved) :
      Leads k' (do
        let positional ← whenEats Terminal.windowAt variableName
        let previous ← whenEats Terminal.windowPrevious variableName
        let next ← whenEats Terminal.windowNext variableName
        expect Terminal.whenCondition
        let condition ← single
        return WindowCondition.mk only ⟨current, positional, previous, next⟩ condition)
        fun _ => k.goto .operator := by
    refine course_bind (level_whenEats (flat_goto _) hvariable k') fun positional k₁ h₁ => ?_
    refine course_bind (level_whenEats (flat_goto _) hvariable k₁) fun previous k₂ h₂ => ?_
    refine course_bind (level_whenEats (flat_goto _) hvariable k₂) fun next k₃ h₃ => ?_
    have hsaved : k₃.saved = k.saved := h₃.trans (h₂.trans (h₁.trans hk))
    refine leads_bind (leads_expect rfl) fun _ => leads_bind (h k₃.saved) fun condition => ?_
    exact leads_pure (congrArg (StateStack.mk .operator) hsaved)
  refine (keeps_peek _).bind fun _ => course_ite (fun _ => ?_) fun _ => ?_
  · have hcurrent : Leads k (some <$> variableName) fun _ => k.goto .operator :=
      leads_map some leads_variableName
    exact leads_bind hcurrent fun current => hend current _ rfl
  · exact (keeps_pure none).bind fun current => hend current k rfl

theorem suffix_windowEnd (h : Operand single) (kind : WindowKind) :
    Suffix (windowEnd single kind) := by
  refine fun S => course_ifEat rfl ?_ (course_ifEat rfl ?_ ?_)
  · exact leads_bind (leads_windowCondition h true) fun _ => leads_pure rfl
  · exact leads_bind (leads_windowCondition h false) fun _ => leads_pure rfl
  · refine course_ite (fun _ => ?_) fun _ => leads_pure rfl
    exact course_bind_stop (course_unexpected _)

theorem leads_windowClause (h : Operand single) (kind : WindowKind) :
    Leads k (windowClause single kind) fun _ => k.goto .operator := by
  refine keeps_nextOffset.bind fun offset => leads_bind leads_typedVariable fun ⟨name, type⟩ => ?_
  refine leads_bind (leads_expect rfl) fun _ => leads_bind (h k.saved) fun source => ?_
  refine leads_bind (leads_expect rfl) fun _ => ?_
  refine leads_bind (leads_windowCondition h false) fun first => ?_
  refine leads_bind (suffix_windowEnd h kind k.saved) fun last => ?_
  refine (keeps_forIn (fun n => ?_) _).bind fun _ => leads_pure rfl
  exact keeps_record _ _ _

/-- The first clause of a query makes an operand come next, and ends one. -/
theorem leads_initialClause (h : Operand single) :
    Leads k (initialClause single) fun found => found.elim k fun _ => k.goto .operator := by
  refine course_ifEat rfl ?_ (course_ifEat rfl ?_ (course_ifEat rfl ?_ (course_ifEat rfl ?_
    (course_ifEat rfl ?_ (leads_pure rfl)))))
  · exact leads_bind (leads_windowClause h .tumbling) fun _ => leads_pure rfl
  · exact leads_bind (leads_windowClause h .sliding) fun _ => leads_pure rfl
  · refine leads_bind (leads_separatedBy rfl (leads_forBinding h) (leads_forBinding h)) fun _ => ?_
    exact leads_pure rfl
  · exact leads_bind (leads_letBindings h true) fun _ => leads_pure rfl
  · exact leads_bind (leads_letBindings h false) fun _ => leads_pure rfl

theorem suffix_clause (h : Operand single) : Suffix (clause single) := by
  refine fun S => leads_bind (leads_initialClause h) ?_
  rintro (_ | c)
  · refine course_ifEat rfl ?_ (course_ifEat rfl ?_ (leads_pure rfl))
    · exact leads_bind (h S) fun _ => leads_pure rfl
    · exact leads_bind leads_variableName fun _ => leads_pure rfl
  · exact leads_pure rfl

theorem keeps_collation : Keeps collation := keeps_whenEats rfl (keeps_capturedString 0)

theorem leads_groupingSpec (h : Operand single) (bound : List ExpandedName) :
    Leads k (groupingSpec single bound) fun _ => k.goto .operator := by
  refine keeps_nextOffset.bind fun offset => leads_bind leads_variableName fun name => ?_
  refine leads_bind (leads_whenEats_back rfl (h k.saved)) fun value => ?_
  refine course_ite (fun _ => ?_) fun _ => keeps_collation.bind fun _ => leads_pure rfl
  exact (keeps_record _ _ _).bind fun _ => keeps_collation.bind fun _ => leads_pure rfl

theorem operand_orderSpec (h : Operand single) : Operand (orderSpec single) := by
  refine fun S => leads_bind (h S) fun key => ?_
  refine Keeps.bind (keeps_eatFirst ?_) fun direction => ?_
  · simp only [List.forall_mem_cons]
    exact ⟨rfl, rfl, fun _ h => nomatch h⟩
  refine Keeps.bind (keeps_eatFirst ?_) fun empty => ?_
  · simp only [List.forall_mem_cons]
    exact ⟨rfl, rfl, fun _ h => nomatch h⟩
  exact keeps_collation.bind fun _ => leads_pure rfl

theorem suffix_ordering (h : Operand single) : Suffix (ordering single) := by
  refine fun S => leads_bind (leads_eatFirst (t := .goto .expression) rfl ?_) ?_
  · simp only [List.forall_mem_cons]
    exact ⟨rfl, rfl, fun _ h => nomatch h⟩
  · rintro (_ | stable)
    · exact leads_pure rfl
    · refine leads_bind (leads_separatedBy rfl (operand_orderSpec h S) (operand_orderSpec h S)) ?_
      exact fun _ => leads_pure rfl

theorem suffix_postGroupClause (h : Operand single) : Suffix (postGroupClause single) := by
  refine fun S => leads_bind (suffix_clause h S) ?_
  rintro (_ | c)
  · refine course_ifEat rfl ?_ (leads_pure rfl)
    exact keeps_start.bind fun _ => course_bind_stop (course_fatal _ _ _)
  · exact leads_pure rfl

theorem optionalOperand_flwor (h : Operand single) : OptionalOperand (flwor single) := by
  intro S
  refine keeps_nextOffset.bind fun offset => leads_bind (leads_initialClause h) ?_
  rintro (_ | first)
  · exact leads_pure rfl
  · refine leads_bind (leads_many (suffix_clause h S)) fun more => ?_
    obtain ⟨clauses, condition⟩ := Clause.splitCondition (first :: more)
    have hend (groupBy : List (GroupingSpec Expr)) (postGroup : List (Clause Expr)) :
        Leads ⟨.operator, S⟩ (do
          let order ← ordering single
          expect Terminal.returnClause
          let result ← single
          return some (← node (.flwor
            ⟨clauses, condition, groupBy, postGroup, order.1, order.2, result⟩) offset))
          fun found => found.elim ⟨.expression, S⟩ fun _ => ⟨.operator, S⟩ := by
      refine leads_bind (suffix_ordering h S) fun order => ?_
      refine leads_bind (leads_expect rfl) fun _ => leads_bind (h S) fun result => ?_
      exact (keeps_node _ _).bind fun _ => leads_pure rfl
    refine leads_bind (leads_eat rfl) ?_
    rintro (_ | _)
    · exact (keeps_pure []).bind fun groupBy => (keeps_pure []).bind fun _ => hend groupBy _
    · refine leads_bind (leads_separatedBy rfl (leads_groupingSpec h _)
        (leads_groupingSpec h _)) fun groupBy => ?_
      exact leads_bind (leads_many (suffix_postGroupClause h S)) fun _ => hend groupBy _

/-! ### Updates -/

theorem leads_insertPosition : Leads k insertPosition fun _ => k.goto .expression := by
  refine leads_bind (leads_eatFirst (t := .goto .expression) rfl ?_) ?_
  · simp only [List.forall_mem_cons]
    exact ⟨rfl, rfl, rfl, rfl, rfl, fun _ h => nomatch h⟩
  · rintro (_ | position)
    · exact course_unexpected _
    · exact leads_pure rfl

theorem operand_replace (h : Operand single) (valueOf : Bool) :
    Operand (replace single valueOf) := by
  refine fun S => leads_bind (h S) fun target => leads_bind (leads_expect rfl) fun _ => ?_
  exact leads_bind (h S) fun _ => leads_pure rfl

theorem operand_copyBinding (h : Operand single) : Operand (copyBinding single) := by
  refine fun S => leads_bind leads_variableName fun name => leads_bind (leads_expect rfl) fun _ => ?_
  exact leads_bind (h S) fun _ => leads_pure rfl

theorem operand_transform (h : Operand single) : Operand (transform single) := by
  intro S
  have hcopy := operand_copyBinding h S
  refine leads_bind (leads_separatedBy rfl hcopy hcopy) fun bindings => ?_
  refine leads_bind (leads_expect rfl) fun _ => leads_bind (h S) fun modify => ?_
  refine leads_bind (leads_expect rfl) fun _ => leads_bind (h S) fun _ => leads_pure rfl

theorem optionalOperand_updateKind (h : Operand single) : OptionalOperand (updateKind single) := by
  refine fun S => leads_bind (leads_eatFirst_operand ?_) fun found => ?_
  · simp only [List.forall_mem_cons]
    exact ⟨rfl, rfl, fun _ h => nomatch h⟩
  refine course_ite (fun _ => ?_) fun _ => ?_
  · refine leads_bind (h S) fun source => leads_bind leads_insertPosition fun position => ?_
    exact leads_bind (h S) fun _ => leads_pure rfl
  refine leads_bind (leads_eatFirst_operand ?_) fun found => ?_
  · simp only [List.forall_mem_cons]
    exact ⟨rfl, rfl, fun _ h => nomatch h⟩
  refine course_ite (fun _ => ?_) fun _ => ?_
  · exact leads_bind (h S) fun _ => leads_pure rfl
  refine course_ifEat rfl ?_ (course_ifEat rfl ?_ (course_ifEat rfl ?_ ?_))
  · exact leads_bind (operand_replace h true S) fun _ => leads_pure rfl
  · exact leads_bind (operand_replace h false S) fun _ => leads_pure rfl
  · refine leads_bind (h S) fun target => leads_bind (leads_expect rfl) fun _ => ?_
    exact leads_bind (h S) fun _ => leads_pure rfl
  · exact leads_whenEats rfl (operand_transform h S)

theorem optionalOperand_updateExpr (h : Operand single) : OptionalOperand (updateExpr single) := by
  refine fun S => keeps_nextOffset.bind fun offset => ?_
  refine leads_bind (optionalOperand_updateKind h S) ?_
  rintro (_ | kind)
  · exact leads_pure rfl
  · exact (keeps_node kind offset).bind fun _ => leads_pure rfl

/-! ### Statements -/

theorem operand_blockVariable (h : Operand single) : Operand (blockVariable single) := by
  refine fun S => leads_bind leads_typedVariable fun ⟨name, type⟩ => ?_
  exact leads_bind (leads_whenEats_back rfl (h S)) fun _ => leads_pure rfl

theorem leads_blockDeclaration (h : Operand single) :
    Leads ⟨.expression, S⟩ (blockDeclaration single) fun _ => ⟨.expression, S⟩ := by
  have hvariable := operand_blockVariable h S
  refine leads_whenEats_back rfl ?_
  refine leads_bind (leads_separatedBy rfl hvariable hvariable) fun declared => ?_
  exact leads_bind (leads_expect rfl) fun _ => leads_pure rfl

theorem leads_blockStatement (h : Operand single) (body : List Expr) :
    Leads ⟨.expression, S⟩ (blockStatement single body)
      (Sum.elim (fun _ => ⟨.expression, S⟩) fun _ => ⟨.operator, S⟩) := by
  refine course_ifEat rfl (leads_pure rfl) (leads_bind (operand_expr h S) fun e => ?_)
  refine course_ifEat rfl (leads_pure rfl) ?_
  exact leads_bind (leads_expect rfl) fun _ => leads_pure rfl

theorem operand_blockBody (h : Operand single) (offset : Nat) :
    Operand (blockBody single offset) := by
  refine fun S => leads_bind (leads_many (leads_blockDeclaration h)) fun declarations => ?_
  refine leads_bind (leads_iterate (leads_blockStatement h) []) fun body => ?_
  exact keeps_node _ _ _

theorem optionalOperand_statementKind (h : Operand single) :
    OptionalOperand (statementKind single) := by
  intro S
  refine course_ifEat rfl ?_ ?_
  · refine leads_bind (operand_parenthesizedExpr h S) fun condition => ?_
    exact leads_bind (leads_goto _) fun _ => leads_bind (h S) fun _ => leads_pure rfl
  refine leads_bind (leads_eatFirst_operand ?_) fun found => ?_
  · simp only [List.forall_mem_cons]
    exact ⟨rfl, rfl, fun _ h => nomatch h⟩
  refine course_ite (fun _ => ?_) fun _ => ?_
  · exact leads_bind (h S) fun _ => leads_pure rfl
  refine course_ifEat rfl (leads_pure rfl) (course_ifEat rfl (leads_pure rfl)
    (course_ifEat rfl ?_ (course_ifEat rfl ?_ (leads_pure rfl))))
  · refine leads_bind leads_variableName fun name => leads_bind (leads_expect rfl) fun _ => ?_
    exact leads_bind (h S) fun _ => leads_pure rfl
  · refine keeps_start.bind fun offset => (keeps_capturedQualifiedName 0).bind fun name => ?_
    refine (keeps_plainName name offset).bind fun _ => ?_
    exact leads_bind (h S) fun _ => leads_pure rfl

theorem optionalOperand_scriptingExpr (h : Operand single) :
    OptionalOperand (scriptingExpr single) := by
  refine fun S => keeps_nextOffset.bind fun offset => course_ifEat rfl ?_ ?_
  · refine leads_bind (leads_expect rfl) fun _ => ?_
    exact leads_bind (operand_blockBody h offset S) fun _ => leads_pure rfl
  · refine leads_bind (optionalOperand_statementKind h S) ?_
    rintro (_ | kind)
    · exact leads_pure rfl
    · exact (keeps_node kind offset).bind fun _ => leads_pure rfl

/-! ### Functions -/

theorem keeps_annotationLiteral : Keeps annotationLiteral := by
  refine keeps_ifEat rfl ?_ (keeps_ifEat rfl ?_ (keeps_unexpected _))
  · exact (keeps_capturedString 0).seq fun _ => keeps_pure _
  · exact (keeps_capturedNumber? 0).seq fun _ => keeps_pure _

theorem keeps_annotationLiterals : Keeps annotationLiterals := by
  refine keeps_ifEat rfl ?_ (keeps_pure _)
  refine (keeps_separatedBy rfl keeps_annotationLiteral).seq fun _ => ?_
  exact (keeps_expect rfl).seq fun _ => keeps_pure _

theorem keeps_annotation? : Keeps annotation? := by
  refine keeps_whenEats rfl (keeps_start.seq fun offset => ?_)
  refine (keeps_capturedQualifiedName 0).seq fun name => ?_
  refine (keeps_resolveName name _ offset).seq fun _ => ?_
  exact keeps_annotationLiterals.seq fun _ => keeps_pure _

theorem keeps_annotationList : Keeps annotationList := by
  refine keeps_iterate (fun annotations => keeps_annotation?.seq ?_) []
  rintro (_ | ⟨a, offset⟩)
  · exact keeps_pure _
  · exact keeps_ite ((keeps_record _ _ _).seq fun _ => keeps_pure _) (keeps_pure _)

theorem leads_declaredType :
    Leads ⟨.variableDeclaration, S⟩ declaredType fun _ => ⟨.variableDeclaration, S⟩ :=
  leads_whenEats_back rfl (leads_sequenceType .variableDeclaration)

theorem leads_param (params : List Param) :
    Leads ⟨.variableDeclaration, S⟩ (param params) fun _ => ⟨.variableDeclaration, S⟩ := by
  refine (keeps_expect rfl).bind fun _ => keeps_start.bind fun offset => ?_
  refine (keeps_capturedQualifiedName 0).bind fun name => (keeps_plainName name offset).bind ?_
  have hend (name : QName) : Leads ⟨.variableDeclaration, S⟩ (do
      return Param.mk name (← declaredType)) fun _ => ⟨.variableDeclaration, S⟩ :=
    leads_bind leads_declaredType fun _ => leads_pure rfl
  refine fun name => course_ite (fun _ => ?_) fun _ => hend name
  exact (keeps_record _ _ _).bind fun _ => hend name

theorem leads_addParam (params : List Param) :
    Leads ⟨.variableDeclaration, S⟩ (addParam params)
      (Sum.elim (fun _ => ⟨.variableDeclaration, S⟩) fun _ => ⟨.variableDeclaration, S⟩) := by
  refine leads_bind (leads_param params) fun p => ?_
  exact course_ifEat rfl (leads_pure rfl) (leads_pure rfl)

theorem leads_paramList :
    Leads ⟨.variableDeclaration, S⟩ paramList fun _ => ⟨.variableDeclaration, S⟩ := by
  refine course_ifEat rfl (leads_pure rfl) (leads_bind (leads_iterate leads_addParam []) ?_)
  exact fun params => (keeps_expect rfl).bind fun _ => leads_pure rfl

theorem operand_functionBody (h : Operand single) (statements : Bool) (offset : Nat) :
    Operand (functionBody single statements offset) :=
  fun S => course_ite (fun _ => operand_blockBody h offset S) fun _ =>
    operand_exprUpToBrace h offset S

theorem operand_inlineFunction (h : Operand single) : Operand (inlineFunction single) := by
  refine fun S => keeps_nextOffset.bind fun offset => keeps_annotationList.bind fun annotations => ?_
  refine leads_bind (leads_expect rfl) fun _ => leads_bind (leads_expect rfl) fun _ => ?_
  refine leads_bind leads_paramList fun params => leads_bind leads_declaredType fun type => ?_
  refine leads_bind (leads_expect rfl) fun _ => keeps_start.bind fun place => ?_
  exact leads_bind (operand_functionBody h false place S) fun body => keeps_node _ _ _

end XQuerySyntax.Grammar
