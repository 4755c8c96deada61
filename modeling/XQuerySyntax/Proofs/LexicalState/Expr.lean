import XQuerySyntax.Proofs.LexicalState.FullText
import XQuerySyntax.Proofs.LexicalState.Clause

/-! The lexical states of constructors and paths. A start tag saves the state to come back to, and the
tag that closes the element comes back to it; an enclosed expression comes back to the markup that
its brace stands in. -/

namespace XQuerySyntax.Grammar

open XQuerySyntax.Parser

variable {single : Parser Expr} {S : List LexicalState} {k : StateStack} {resume : LexicalState}

/-! ### Markup -/

theorem keeps_dirComment (offset : Nat) : Keeps (dirComment offset) :=
  (keeps_lexeme _).seq fun _ => keeps_node _ _

theorem keeps_dirPi (offset : Nat) : Keeps (dirPi offset) := by
  have hend (target : String) : Keeps (do
      let content ← lexeme (scanDelimited "?>" "processing instruction")
      node (.dirPi target (content.getD "")) offset) :=
    (keeps_lexeme _).seq fun _ => keeps_node _ _
  refine (keeps_capturedName 0).seq fun target => keeps_ite ?_ (hend target)
  exact (keeps_record _ _ _).seq fun _ => hend target

theorem keeps_namespaceAttribute (qualifier : Option String)
    (value : List (AttributeValuePart Expr)) (offset : Nat) (earlier : List NamespaceBinding) :
    Keeps (namespaceAttribute qualifier value offset earlier) := by
  have hrecord (code : ErrorCode) (message : String) {β : Type} {next : Unit → Parser β}
      (hn : Keeps (next ())) : Keeps (record code offset message >>= next) :=
    (keeps_record _ _ _).seq fun _ => hn
  refine (keeps_forIn (fun _ => keeps_record _ _ _) _).seq fun _ => ?_
  cases qualifier with
  | none =>
    have hend (uri : String) : Keeps (do
        checkDefaultNamespace uri offset
        amend (·.bind "" uri)
        return NamespaceBinding.mk none uri) :=
      (keeps_checkDefaultNamespace _ offset).seq fun _ => (keeps_amend _).seq fun _ => keeps_pure _
    exact keeps_ite (hrecord _ _ (hend _)) (hend _)
  | some q =>
    have hend (uri : String) : Keeps (do
        if uri = "" then
          record .emptyNamespaceUri offset
            ("namespace prefix '" ++ q ++ "' cannot be bound to an empty URI")
        checkBinding q uri offset
        amend (·.bind q uri)
        return NamespaceBinding.mk (some q) uri) := by
      have hbind : Keeps (do
          checkBinding q uri offset
          amend (·.bind q uri)
          return NamespaceBinding.mk (some q) uri) :=
        (keeps_checkBinding q _ offset).seq fun _ => (keeps_amend _).seq fun _ => keeps_pure _
      exact keeps_ite (hrecord _ _ hbind) hbind
    exact keeps_ite (hrecord _ _ (hend _)) (hend _)

theorem keeps_resolveAttributes (seen : List ExpandedName) (attributes : List RawAttribute) :
    Keeps (resolveAttributes seen attributes) := by
  induction attributes generalizing seen with
  | nil => exact keeps_pure _
  | cons a rest ih =>
    refine (keeps_plainName a.name a.offset).seq fun name => keeps_ite ?_ ?_
    · exact (keeps_record _ _ _).seq fun _ => (ih _).seq fun _ => keeps_pure _
    · exact (ih _).seq fun _ => keeps_pure _

/-- An enclosed expression comes back to the state that its brace saved. -/
theorem leads_enclosedContent (h : Operand single) :
    Leads ⟨.expression, resume :: S⟩ (enclosedContent single) fun _ => ⟨resume, S⟩ := by
  refine keeps_start.bind fun offset => course_ifEat rfl (keeps_node _ _ _) ?_
  refine leads_bind (operand_expr h (resume :: S)) fun e => leads_bind (leads_eat rfl) ?_
  rintro (_ | _)
  · exact course_bind_stop (course_unexpected _)
  · exact leads_pure rfl

/-- A part of an attribute value leaves the state of the value, and its delimiter goes back into the
tag. -/
theorem leads_attributeValueStep (h : Operand single) (delimiter : Char) {close : Rule}
    (hc : close.next = .goto .tag) (parts : List (AttributeValuePart Expr)) :
    Leads k (attributeValueStep single delimiter close parts)
      (Sum.elim (fun _ => k) fun _ => k.goto .tag) := by
  refine (keeps_lexeme _).bind ?_
  rintro (_ | text)
  · refine course_ifEat (by rw [hc]; rfl) (leads_pure (by rw [hc]; rfl)) (course_ifEat rfl ?_ ?_)
    · exact leads_bind (leads_enclosedContent h) fun _ => leads_pure rfl
    · exact course_unexpected _
  · exact leads_pure rfl

theorem leads_attributeValue (h : Operand single) :
    Leads ⟨.tag, S⟩ (attributeValue single) fun _ => ⟨.tag, S⟩ := by
  have hvalue (state : LexicalState) (delimiter : Char) {close : Rule}
      (hc : close.next = .goto .tag) :
      Leads ⟨state, S⟩ (iterate (attributeValueStep single delimiter close) [])
        fun _ => ⟨.tag, S⟩ :=
    leads_iterate (fun parts => leads_attributeValueStep h delimiter hc parts) []
  refine course_ifEat rfl ?_ (course_ifEat rfl ?_ (course_unexpected _))
  · exact hvalue .quotedValue '"' rfl
  · exact hvalue .apostropheValue '\'' rfl

theorem leads_tagAttributeStep (h : Operand single) (tag : TagAttributes) :
    Leads ⟨.tag, S⟩ (tagAttributeStep single tag)
      (Sum.elim (fun _ => ⟨.tag, S⟩) fun _ => ⟨.tag, S⟩) := by
  refine (keeps_eat rfl).bind fun _ => course_ite (fun _ => leads_pure rfl) fun _ => ?_
  refine keeps_start.bind fun offset => (keeps_capturedQualifiedName 0).bind fun name => ?_
  refine leads_bind (leads_attributeValue h) fun value => course_ite (fun _ => ?_) fun _ => ?_
  · exact (keeps_namespaceAttribute _ _ _ _).bind fun _ => leads_pure rfl
  · refine course_ite (fun _ => ?_) fun _ => leads_pure rfl
    exact (keeps_namespaceAttribute _ _ _ _).bind fun _ => leads_pure rfl

section

variable {element : Nat → Parser Expr}

theorem leads_nestedNode
    (h : ∀ offset r S, Leads ⟨.tag, r :: S⟩ (element offset) fun _ => ⟨r, S⟩) :
    Leads ⟨.content, S⟩ (nestedNode element) fun _ => ⟨.content, S⟩ := by
  refine course_ifEat rfl ?_ (course_ifEat rfl ?_ (course_ifEat rfl ?_ (course_ifEat rfl ?_
    (leads_pure rfl))))
  · exact keeps_start.bind fun offset => leads_bind (h offset _ _) fun _ => leads_pure rfl
  · exact (keeps_lexeme _).bind fun _ => leads_pure rfl
  · exact keeps_start.bind fun offset => (keeps_dirComment offset).bind fun _ => leads_pure rfl
  · exact keeps_start.bind fun offset => (keeps_dirPi offset).bind fun _ => leads_pure rfl

/-- A part of the content leaves the state of content; the end tag comes back to the state that the
start tag saved. -/
theorem leads_elementContentStep (hs : Operand single)
    (h : ∀ offset r S, Leads ⟨.tag, r :: S⟩ (element offset) fun _ => ⟨r, S⟩) (strip : Bool)
    (opened : LexicalName) (content : List (DirContent Expr)) :
    Leads ⟨.content, resume :: S⟩ (elementContentStep single element strip opened content)
      (Sum.elim (fun _ => ⟨.content, resume :: S⟩) fun _ => ⟨resume, S⟩) := by
  refine course_ifEat rfl ?_ (leads_bind (leads_nestedNode h) ?_)
  · have hend : Keeps (checkEndTag opened) := by
      refine (keeps_capturedQualifiedName 0).seq fun _ => keeps_ite ?_ (keeps_pure ())
      exact keeps_start.seq fun _ => keeps_fatal _ _ _
    exact hend.bind fun _ => leads_pure rfl
  rintro (_ | inner)
  · refine (keeps_lexeme _).bind ?_
    rintro (_ | text)
    · refine course_ifEat rfl ?_ ((keeps_observe _).bind fun _ => course_ite (fun _ => ?_) fun _ => ?_)
      · exact leads_bind (leads_enclosedContent hs) fun _ => leads_pure rfl
      · exact (keeps_observe _).bind fun _ => course_bind_stop (course_fatal _ _ _)
      · exact course_unexpected _
    · exact course_ite (fun _ => leads_pure rfl) fun _ => leads_pure rfl
  · exact leads_pure rfl

theorem leads_elementContent (hs : Operand single)
    (h : ∀ offset r S, Leads ⟨.tag, r :: S⟩ (element offset) fun _ => ⟨r, S⟩)
    (opened : LexicalName) :
    Leads ⟨.content, resume :: S⟩ (elementContent single element opened) fun _ => ⟨resume, S⟩ :=
  (keeps_consult _).bind fun strip => leads_iterate (leads_elementContentStep hs h strip opened) []

/-- An element begins inside its tag and ends in the state that was saved for it, whether its tag
closes itself or an end tag closes it. -/
theorem leads_elementInFrame (hs : Operand single)
    (h : ∀ offset r S, Leads ⟨.tag, r :: S⟩ (element offset) fun _ => ⟨r, S⟩)
    (opened : LexicalName) (offset : Nat) :
    Leads ⟨.tag, resume :: S⟩ (elementInFrame single element opened offset)
      fun _ => ⟨resume, S⟩ := by
  refine leads_bind (leads_iterate (leads_tagAttributeStep hs) _) fun tag => ?_
  refine (keeps_elementName opened offset).bind fun name => ?_
  refine (keeps_resolveAttributes _ _).bind fun attributes => ?_
  refine course_ifEat rfl (keeps_node _ _ _) (leads_bind (leads_eat rfl) ?_)
  rintro (_ | _)
  · exact course_bind_stop (course_unexpected _)
  · exact leads_bind (leads_elementContent hs h opened) fun content => keeps_node _ _ _

end

/-- However far elements may nest, an element comes back to the state that was saved for it. -/
theorem leads_dirElementWithin (h : Operand single) (n offset : Nat) :
    Leads ⟨.tag, resume :: S⟩ (dirElementWithin single n offset) fun _ => ⟨resume, S⟩ := by
  induction n generalizing offset resume S with
  | zero => exact course_exhausted
  | succ n ih =>
    refine (keeps_capturedQualifiedName 0).bind fun opened => course_nested ?_
    refine (keeps_amend _).bind fun _ => ?_
    refine leads_bind (leads_elementInFrame h (fun _ _ _ => ih _) opened offset) fun e => ?_
    exact (keeps_amend _).bind fun _ => leads_pure rfl

theorem leads_dirElement (h : Operand single) (offset : Nat) :
    Leads ⟨.tag, resume :: S⟩ (dirElement single offset) fun _ => ⟨resume, S⟩ :=
  keeps_get.bind fun _ => leads_dirElementWithin h _ offset

theorem optionalOperand_directConstructor (h : Operand single) :
    OptionalOperand (directConstructor single) := by
  refine fun S => course_ifEat rfl ?_ (course_ifEat rfl ?_ (course_ifEat rfl ?_ (leads_pure rfl)))
  · exact keeps_start.bind fun offset => leads_bind (leads_dirElement h offset) fun _ =>
      leads_pure rfl
  · exact keeps_start.bind fun offset => (keeps_dirComment offset).bind fun _ => leads_pure rfl
  · exact keeps_start.bind fun offset => (keeps_dirPi offset).bind fun _ => leads_pure rfl

/-! ### Computed constructors -/

theorem leads_computedName (h : Operand single) :
    Leads k (computedName single) fun _ => k.goto .operator :=
  leads_bind (leads_bracedExpr h) fun _ => leads_pure rfl

theorem keeps_literalName : Keeps literalName := (keeps_capturedName 0).seq fun _ => keeps_pure _

theorem optionalOperand_computedKind (h : Operand single) :
    OptionalOperand (computedKind single) := by
  intro S
  -- Every form ends with its content in braces.
  have hcontent {k : StateStack} (form : Expr → ExprKind Expr) (hk : k.saved = S) :
      Leads k (do return some (form (← enclosedExpr single)))
        fun found => found.elim ⟨.expression, S⟩ fun _ => ⟨.operator, S⟩ :=
    leads_bind (leads_enclosedExpr h) fun _ => leads_pure (congrArg (StateStack.mk .operator) hk)
  have hoptional {k : StateStack} (form : Option Expr → ExprKind Expr) (hk : k.saved = S) :
      Leads k (do return some (form (← optionalExpr single)))
        fun found => found.elim ⟨.expression, S⟩ fun _ => ⟨.operator, S⟩ :=
    leads_bind (leads_optionalExpr h) fun _ => leads_pure (congrArg (StateStack.mk .operator) hk)
  refine course_ifEat rfl (hcontent _ rfl) (course_ifEat rfl ?_ (course_ifEat rfl ?_
    (course_ifEat rfl ?_ (course_ifEat rfl ?_ (course_ifEat rfl (hcontent _ rfl)
    (course_ifEat rfl (hcontent _ rfl) (course_ifEat rfl ?_ (course_ifEat rfl ?_
    (course_ifEat rfl ?_ (course_ifEat rfl ?_ (leads_pure rfl)))))))))))
  · refine keeps_start.bind fun offset => (keeps_capturedQualifiedName 0).bind fun name => ?_
    exact (keeps_elementName name offset).bind fun _ => hoptional _ rfl
  · exact leads_bind (leads_computedName h) fun _ => hoptional _ rfl
  · refine keeps_start.bind fun offset => (keeps_capturedQualifiedName 0).bind fun name => ?_
    exact (keeps_plainName name offset).bind fun _ => hoptional _ rfl
  · exact leads_bind (leads_computedName h) fun _ => hoptional _ rfl
  · exact keeps_literalName.bind fun _ => hoptional _ rfl
  · exact leads_bind (leads_computedName h) fun _ => hoptional _ rfl
  · exact keeps_literalName.bind fun _ => hcontent _ rfl
  · exact leads_bind (leads_computedName h) fun _ => hcontent _ rfl

theorem optionalOperand_computedConstructor (h : Operand single) :
    OptionalOperand (computedConstructor single) := by
  refine fun S => keeps_nextOffset.bind fun offset => ?_
  refine leads_bind (optionalOperand_computedKind h S) ?_
  rintro (_ | kind)
  · exact leads_pure rfl
  · exact (keeps_node kind offset).bind fun _ => leads_pure rfl

/-! ### Steps and primary expressions -/

/-- Behind a node test the scanner stands behind an operand or among types. -/
theorem level_nodeTest (axis : Axis) : Level (nodeTest axis) := by
  intro k
  refine course_bind leads_kindTest ?_
  rintro (_ | test) _ rfl
  · refine Keeps.course_bind (keeps_ite (keeps_pure none) (keeps_consult _)) fun default => ?_
    refine course_bind (leads_nameTest default) ?_
    rintro (_ | test) _ rfl
    · exact course_unexpected _
    · exact course_pure rfl
  · exact course_pure rfl

theorem course_stepTest : Course k stepTest fun found k' =>
    found.elim (k' = k) fun _ => k'.saved = k.saved := by
  refine keeps_nextOffset.course_bind fun begin => course_ifEat rfl ?_ (course_ifEat rfl ?_
    (course_ifEat rfl ?_ ?_))
  · refine keeps_start.course_bind fun offset => (keeps_capturedName 0).course_bind fun name => ?_
    dsimp only
    split
    · exact course_bind (level_nodeTest _ k) fun _ _ hk => course_pure hk
    · exact course_fatal _ _ _
  · refine keeps_start.course_bind fun offset => ?_
    exact course_bind (level_nodeTest _ k) fun _ _ hk => course_pure hk
  · exact keeps_start.course_bind fun _ => course_pure rfl
  · refine course_bind leads_kindTest ?_
    rintro (_ | test) _ rfl
    · refine Keeps.course_bind (keeps_ite (keeps_pure none) (keeps_consult _)) fun default => ?_
      refine course_bind (leads_nameTest default) ?_
      rintro (_ | test) _ rfl
      · exact course_pure rfl
      · exact course_pure rfl
    · exact course_pure rfl

theorem keeps_filtered (base : Expr) (predicates : List Expr) : Keeps (filtered base predicates) := by
  cases predicates with
  | nil => exact keeps_pure base
  | cons p ps => exact keeps_node _ _

theorem optionalOperand_literal? : OptionalOperand literal? := by
  refine fun S => course_ifEat rfl ?_ (course_ifEat rfl ?_ (leads_pure rfl))
  · refine keeps_start.bind fun offset => (keeps_capturedNumber? 0).bind fun value => ?_
    exact (keeps_node _ _).bind fun _ => leads_pure rfl
  · refine keeps_start.bind fun offset => (keeps_capturedString 0).bind fun value => ?_
    exact (keeps_node _ _).bind fun _ => leads_pure rfl

theorem keeps_namedFunctionRef : Keeps namedFunctionRef := by
  refine keeps_start.seq fun offset => (keeps_capturedQualifiedName 0).seq fun name => ?_
  refine (keeps_capturedNumber? 1).seq fun arity => ?_
  split
  · exact (keeps_functionName name offset).seq fun _ => keeps_node _ _
  · exact keeps_fatal _ _ _

theorem operand_predicate (h : Operand single) : Operand (predicate single) := by
  refine fun S => leads_bind (operand_expr h S) fun e => ?_
  exact leads_bind (leads_expect rfl) fun _ => leads_pure rfl

theorem suffix_predicates (h : Operand single) : Suffix (predicates single) :=
  fun S => leads_many (leads_whenEats_back rfl (operand_predicate h S))

theorem optionalOperand_axisStep (h : Operand single) : OptionalOperand (axisStep single) := by
  intro S
  refine course_bind course_stepTest ?_
  rintro (_ | ⟨axis, test, offset⟩) k hk
  · exact leads_pure hk
  · -- Whatever the test left, the scanner is put behind an operand.
    have hgoto : k.goto .operator = ⟨.operator, S⟩ := congrArg (StateStack.mk .operator) hk
    refine leads_bind (leads_goto _) fun _ => ?_
    rw [hgoto]
    refine leads_bind (suffix_predicates h S) fun ps => ?_
    exact (keeps_node _ _).bind fun _ => leads_pure rfl

theorem operand_argument (h : Operand single) : Operand (argument single) :=
  fun S => course_ifEat rfl (keeps_start.bind fun _ => keeps_node _ _ _) (h S)

theorem operand_argumentList (h : Operand single) : Operand (argumentList single) := by
  intro S
  have hargument := operand_argument h S
  refine course_ifEat rfl (leads_pure rfl) ?_
  refine leads_bind (leads_separatedBy rfl hargument hargument) fun args => ?_
  exact leads_bind (leads_expect rfl) fun _ => leads_pure rfl

theorem leads_applicationStep (h : Operand single) (state : Expr × List Expr) :
    Leads ⟨.operator, S⟩ (applicationStep single state)
      (Sum.elim (fun _ => ⟨.operator, S⟩) fun _ => ⟨.operator, S⟩) := by
  obtain ⟨base, ps⟩ := state
  refine course_ifEat rfl ?_ (course_ifEat rfl ?_ ?_)
  · exact leads_bind (operand_predicate h S) fun _ => leads_pure rfl
  · refine (keeps_filtered base ps).bind fun function => ?_
    refine leads_bind (operand_argumentList h S) fun args => ?_
    exact (keeps_node _ _).bind fun _ => leads_pure rfl
  · exact (keeps_filtered base ps).bind fun _ => leads_pure rfl

theorem suffix_applications (h : Operand single) (base : Expr) :
    Suffix (applications single base) :=
  fun _ => leads_iterate (leads_applicationStep h) _

theorem operand_parenthesized (h : Operand single) : Operand (parenthesized single) := by
  refine fun S => keeps_start.bind fun offset => course_ifEat rfl (keeps_node _ _ _) ?_
  refine leads_bind (operand_expr h S) fun e => ?_
  exact leads_bind (leads_expect rfl) fun _ => leads_pure rfl

theorem optionalOperand_functionCall? (h : Operand single) :
    OptionalOperand (functionCall? single) := by
  refine fun S => (keeps_peek _).bind fun _ => course_ite (fun _ => leads_pure rfl) fun _ => ?_
  refine (keeps_capturedQualifiedName 0).bind fun name => ?_
  refine course_ite (fun _ => leads_pure rfl) fun _ => leads_bind (leads_expect rfl) fun _ => ?_
  refine keeps_start.bind fun offset => (keeps_functionName name offset).bind fun _ => ?_
  refine leads_bind (operand_argumentList h S) fun args => ?_
  exact (keeps_node _ _).bind fun _ => leads_pure rfl

theorem optionalOperand_primary (h : Operand single) : OptionalOperand (primary single) := by
  intro S
  have hfunction : OptionalOperand (do return some (← inlineFunction single)) :=
    fun S => leads_bind (operand_inlineFunction h S) fun _ => leads_pure rfl
  refine leads_bind (optionalOperand_literal? S) ?_
  rintro (_ | e)
  · refine (keeps_peek _).bind fun _ => course_ite (fun _ => ?_) fun _ => ?_
    · refine leads_bind leads_variableName fun name => keeps_start.bind fun offset => ?_
      exact (keeps_node _ _).bind fun _ => leads_pure rfl
    refine course_ifEat rfl ?_ ((keeps_peek _).bind fun dots => ?_)
    · exact leads_bind (operand_parenthesized h S) fun _ => leads_pure rfl
    extract_lets rest
    have hrest : Leads ⟨.expression, S⟩ (rest ())
        fun found => found.elim ⟨.expression, S⟩ fun _ => ⟨.operator, S⟩ := by
      refine leads_bind (optionalOperand_directConstructor h S) ?_
      rintro (_ | e)
      · refine leads_bind (optionalOperand_computedConstructor h S) ?_
        rintro (_ | e)
        · refine course_ifEat rfl ?_ (course_ifEat rfl ?_ ?_)
          · refine keeps_start.bind fun offset => leads_bind (leads_bracedExpr h) fun _ => ?_
            exact (keeps_node _ _).bind fun _ => leads_pure rfl
          · refine keeps_start.bind fun offset => leads_bind (leads_bracedExpr h) fun _ => ?_
            exact (keeps_node _ _).bind fun _ => leads_pure rfl
          · refine (keeps_peek _).bind fun _ => course_ite (fun _ => hfunction S) fun _ => ?_
            refine (keeps_peek _).bind fun _ => course_ite (fun _ => hfunction S) fun _ => ?_
            refine course_ifEat rfl ?_ (optionalOperand_functionCall? h S)
            exact keeps_namedFunctionRef.bind fun _ => leads_pure rfl
        · exact leads_pure rfl
      · exact leads_pure rfl
    refine course_ite (fun _ => course_ifEat rfl ?_ hrest) fun _ => hrest
    refine keeps_start.bind fun offset => (keeps_node _ _).bind fun _ => leads_pure rfl
  · exact leads_pure rfl

theorem optionalOperand_stepExpr (h : Operand single) : OptionalOperand (stepExpr single) := by
  refine fun S => leads_bind (optionalOperand_primary h S) ?_
  rintro (_ | base)
  · exact optionalOperand_axisStep h S
  · exact leads_bind (suffix_applications h base S) fun _ => leads_pure rfl

theorem operand_requiredStep (h : Operand single) : Operand (requiredStep single) := by
  refine fun S => leads_bind (optionalOperand_stepExpr h S) ?_
  rintro (_ | step)
  · exact course_unexpected _
  · exact leads_pure rfl

theorem suffix_furtherSteps (h : Operand single) : Suffix (furtherSteps single) := by
  refine fun S => course_ifEat rfl ?_ (course_ifEat rfl ?_ (leads_pure rfl))
  · refine keeps_start.bind fun offset => (keeps_node _ _).bind fun descend => ?_
    exact leads_bind (operand_requiredStep h S) fun _ => leads_pure rfl
  · exact leads_bind (operand_requiredStep h S) fun _ => leads_pure rfl

theorem suffix_relativePath (h : Operand single) (origin : PathRoot) (first : List Expr)
    (offset : Nat) : Suffix (relativePath single origin first offset) := by
  refine fun S => leads_bind (leads_many (suffix_furtherSteps h S)) fun more => ?_
  dsimp only
  split
  · split
    · exact keeps_node _ _ _
    · exact leads_pure rfl
  · exact keeps_node _ _ _

theorem operand_pathExpr (h : Operand single) : Operand (pathExpr single) := by
  intro S
  have hrelative (origin : PathRoot) (first : List Expr) (offset : Nat) :=
    suffix_relativePath h origin first offset S
  refine course_ifEat rfl ?_ (course_ifEat rfl ?_ ?_)
  · refine keeps_start.bind fun offset => (keeps_node _ _).bind fun descend => ?_
    exact leads_bind (operand_requiredStep h S) fun step => hrelative _ _ _
  · refine keeps_start.bind fun offset => leads_bind (optionalOperand_stepExpr h S) ?_
    rintro (_ | step)
    · exact leads_bind (leads_goto _) fun _ => keeps_node _ _ _
    · exact hrelative _ _ _
  · exact leads_bind (operand_requiredStep h S) fun step => hrelative _ _ _

end XQuerySyntax.Grammar

/-! ### Expressions

The lexical states of the operator layers and of single expressions. Every layer reads an operand
if the layer below it does, and single expressions do by induction on how far they may nest. -/

namespace XQuerySyntax.Grammar

open XQuerySyntax.Parser

variable {single operand : Parser Expr} {S : List LexicalState} {k : StateStack}

/-! ### Operators -/

/-- A layer of operators reads an operand if each of its operators makes one come next. -/
theorem operand_chain {operators : OperatorTable} (h : Operand operand)
    (ho : ∀ x ∈ operators, x.1.next = .goto .expression) : Operand (chain operators operand) := by
  intro S
  have hstep (left : Expr) : Leads ⟨.operator, S⟩ (chainStep operators operand left)
      (Sum.elim (fun _ => ⟨.operator, S⟩) fun _ => ⟨.operator, S⟩) := by
    refine leads_bind (leads_eatFirst rfl ho) ?_
    rintro (_ | op)
    · exact leads_pure rfl
    · refine keeps_start.bind fun offset => leads_bind (h S) fun right => ?_
      exact (keeps_node _ _).bind fun _ => leads_pure rfl
  exact leads_bind (h S) fun first => leads_iterate hstep first

/-- An operand with an operator behind it, if what the operator takes ends behind an operand. -/
theorem operand_suffixed {operator : Rule} {state : LexicalState}
    {form : Expr → Parser (ExprKind Expr)} (h : Operand operand)
    (ho : operator.next = .goto state)
    (hf : ∀ left S, Leads ⟨state, S⟩ (form left) fun _ => ⟨.operator, S⟩) :
    Operand (suffixed operator operand form) := by
  refine fun S => leads_bind (h S) fun left => course_ifEat (by rw [ho]; rfl) ?_ (leads_pure rfl)
  rw [ho]
  refine keeps_start.bind fun offset => leads_bind (hf left S) fun _ => ?_
  exact keeps_node _ _ _

theorem keeps_sign? : Keeps sign? := by
  refine Keeps.seq (keeps_eatFirst ?_) ?_
  · simp only [List.forall_mem_cons]
    exact ⟨rfl, rfl, fun _ h => nomatch h⟩
  · rintro (_ | op)
    · exact keeps_pure _
    · exact keeps_start.seq fun _ => keeps_pure _

theorem keeps_applySigns (operand : Expr) (signs : List (UnaryOperator × Nat)) :
    Keeps (applySigns operand signs) := by
  induction signs with
  | nil => exact keeps_pure operand
  | cons sign signs ih => exact ih.seq fun _ => keeps_node _ _

theorem keeps_validationMode (name : String) (offset : Nat) :
    Keeps (validationMode name offset) :=
  keeps_ite (keeps_pure _) (keeps_ite (keeps_pure _) (keeps_fatal _ _ _))

theorem operand_valueExpr (h : Operand single) : Operand (valueExpr single) := by
  refine fun S => course_ifEat rfl ?_ (course_ifEat rfl ?_ (course_ifEat rfl ?_ ?_))
  · refine keeps_start.bind fun offset => (keeps_capturedQualifiedName 0).bind fun name => ?_
    refine (keeps_elementName name offset).bind fun _ => ?_
    exact leads_bind (leads_bracedExpr h) fun _ => keeps_node _ _ _
  · refine keeps_start.bind fun offset => (keeps_capturedName 0).bind fun name => ?_
    refine (keeps_validationMode name offset).bind fun _ => ?_
    exact leads_bind (leads_bracedExpr h) fun _ => keeps_node _ _ _
  · refine keeps_start.bind fun offset => ?_
    exact leads_bind (leads_bracedExpr h) fun _ => keeps_node _ _ _
  · refine (keeps_peek _).bind fun _ => course_ite (fun _ => ?_) fun _ => operand_pathExpr h S
    exact operand_extensionExpr h S

theorem operand_unaryExpr (h : Operand single) : Operand (unaryExpr single) := by
  refine fun S => (keeps_many keeps_sign?).bind fun signs => ?_
  exact leads_bind (operand_valueExpr h S) fun e => keeps_applySigns e signs _

theorem operand_castExpr (h : Operand single) : Operand (castExpr single) :=
  operand_suffixed (operand_unaryExpr h) rfl fun _ _ =>
    leads_bind leads_singleType fun _ => leads_pure rfl

theorem operand_castableExpr (h : Operand single) : Operand (castableExpr single) :=
  operand_suffixed (operand_castExpr h) rfl fun _ _ =>
    leads_bind leads_singleType fun _ => leads_pure rfl

theorem operand_treatExpr (h : Operand single) : Operand (treatExpr single) :=
  operand_suffixed (operand_castableExpr h) rfl fun _ _ =>
    leads_bind (leads_sequenceType .operator) fun _ => leads_pure rfl

theorem operand_instanceOfExpr (h : Operand single) : Operand (instanceOfExpr single) :=
  operand_suffixed (operand_treatExpr h) rfl fun _ _ =>
    leads_bind (leads_sequenceType .operator) fun _ => leads_pure rfl

theorem operand_intersectExpr (h : Operand single) : Operand (intersectExpr single) := by
  refine operand_chain (operand_instanceOfExpr h) ?_
  simp only [OperatorTable.intersection, List.forall_mem_cons]
  exact ⟨rfl, rfl, fun _ h => nomatch h⟩

theorem operand_unionExpr (h : Operand single) : Operand (unionExpr single) := by
  refine operand_chain (operand_intersectExpr h) ?_
  simp only [OperatorTable.union, List.forall_mem_cons]
  exact ⟨rfl, rfl, fun _ h => nomatch h⟩

theorem operand_multiplicativeExpr (h : Operand single) : Operand (multiplicativeExpr single) := by
  refine operand_chain (operand_unionExpr h) ?_
  simp only [OperatorTable.multiplicative, List.forall_mem_cons]
  exact ⟨rfl, rfl, rfl, rfl, fun _ h => nomatch h⟩

theorem operand_additiveExpr (h : Operand single) : Operand (additiveExpr single) := by
  refine operand_chain (operand_multiplicativeExpr h) ?_
  simp only [OperatorTable.additive, List.forall_mem_cons]
  exact ⟨rfl, rfl, fun _ h => nomatch h⟩

theorem operand_rangeExpr (h : Operand single) : Operand (rangeExpr single) :=
  operand_suffixed (operand_additiveExpr h) rfl fun _ S =>
    leads_bind (operand_additiveExpr h S) fun _ => leads_pure rfl

theorem operand_ftContainsExpr (h : Operand single) : Operand (ftContainsExpr single) := by
  refine fun S => leads_bind (operand_rangeExpr h S) fun left => ?_
  refine leads_bind (leads_eatFirst (t := .goto .expression) rfl ?_) ?_
  · simp only [List.forall_mem_cons]
    exact ⟨rfl, rfl, fun _ h => nomatch h⟩
  rintro (_ | _)
  · exact leads_pure rfl
  · refine keeps_start.bind fun offset => ?_
    refine leads_bind (operand_ftSelection h (operand_additiveExpr h) S) fun selection => ?_
    refine leads_bind (leads_whenEats_back rfl (operand_unionExpr h S)) fun withoutContent => ?_
    exact keeps_node _ _ _

theorem operand_comparisonExpr (h : Operand single) : Operand (comparisonExpr single) := by
  refine fun S => leads_bind (operand_ftContainsExpr h S) fun left => ?_
  refine leads_bind (leads_eatFirst (t := .goto .expression) rfl ?_) ?_
  · simp only [OperatorTable.comparison, List.forall_mem_cons]
    exact ⟨rfl, rfl, rfl, rfl, rfl, rfl, rfl, rfl, rfl, rfl, rfl, rfl, rfl, rfl, rfl,
      fun _ h => nomatch h⟩
  rintro (_ | op)
  · exact leads_pure rfl
  · refine keeps_start.bind fun offset => ?_
    exact leads_bind (operand_ftContainsExpr h S) fun right => keeps_node _ _ _

theorem operand_andExpr (h : Operand single) : Operand (andExpr single) := by
  refine operand_chain (operand_comparisonExpr h) ?_
  simp only [OperatorTable.conjunction, List.forall_mem_cons]
  exact ⟨rfl, fun _ h => nomatch h⟩

theorem operand_orExpr (h : Operand single) : Operand (orExpr single) := by
  refine operand_chain (operand_andExpr h) ?_
  simp only [OperatorTable.disjunction, List.forall_mem_cons]
  exact ⟨rfl, fun _ h => nomatch h⟩

/-! ### Expressions that begin with a keyword -/

theorem leads_errorTest : Leads k errorTest fun _ => k.goto .operator := by
  refine leads_bind (leads_nameTest none) ?_
  rintro (_ | test)
  · exact course_unexpected _
  · exact leads_pure rfl

theorem suffix_catchTests : Suffix catchTests := by
  refine fun S => course_ifEat rfl ?_ (course_ifEat rfl ?_ (leads_pure rfl))
  · refine leads_bind leads_errorTest fun test => ?_
    refine leads_bind (leads_many (leads_whenEats_back rfl leads_variableName)) fun names => ?_
    exact leads_bind (leads_expect rfl) fun _ => leads_pure rfl
  · refine leads_bind (leads_separatedBy rfl leads_errorTest leads_errorTest) fun tests => ?_
    exact leads_pure rfl

theorem operand_quantified (h : Operand single) (quantifier : Quantifier) (offset : Nat) :
    Operand (quantified single quantifier offset) := by
  intro S
  have hbinding {k : StateStack} (hk : k.saved = S) :
      Leads k (quantifiedBinding single) fun _ => ⟨.operator, S⟩ := by
    subst hk
    refine leads_bind leads_typedVariable fun ⟨name, type⟩ => ?_
    refine leads_bind (leads_expect rfl) fun _ => ?_
    exact leads_bind (h k.saved) fun _ => leads_pure rfl
  refine leads_bind (leads_separatedBy rfl (hbinding rfl) (hbinding rfl)) fun bindings => ?_
  refine leads_bind (leads_expect rfl) fun _ => leads_bind (h S) fun _ => ?_
  exact keeps_node _ _ _

theorem operand_conditional (h : Operand single) (offset : Nat) :
    Operand (conditional single offset) := by
  refine fun S => leads_bind (operand_parenthesizedExpr h S) fun condition => ?_
  refine leads_bind (leads_expect rfl) fun _ => leads_bind (h S) fun thenExpr => ?_
  refine leads_bind (leads_expect rfl) fun _ => leads_bind (h S) fun elseExpr => ?_
  exact keeps_node _ _ _

theorem suffix_switchCase (h : Operand single) : Suffix (switchCase single) := by
  refine fun S => leads_bind (leads_many (leads_whenEats_back rfl (h S))) ?_
  rintro (_ | ⟨operand, operands⟩)
  · exact leads_pure rfl
  · refine leads_bind (leads_expect rfl) fun _ => ?_
    exact leads_bind (h S) fun _ => leads_pure rfl

theorem operand_switchExpr (h : Operand single) (offset : Nat) :
    Operand (switchExpr single offset) := by
  refine fun S => leads_bind (operand_parenthesizedExpr h S) fun operand => ?_
  refine leads_bind (leads_many (suffix_switchCase h S)) fun cases => ?_
  refine course_ite (fun _ => course_bind_stop (course_unexpected _)) fun _ => ?_
  refine leads_bind (leads_expect rfl) fun _ => leads_bind (h S) fun default => ?_
  exact keeps_node _ _ _

theorem level_caseVariable : Level caseVariable := by
  refine (keeps_peek _).level.bind fun _ => level_ite ?_ (level_pure _)
  refine Level.bind (fun k => course_weaken leads_variableName ?_) fun name => ?_
  · rintro _ _ rfl
    rfl
  · exact (level_expect (flat_goto _)).bind fun _ => level_pure _

theorem suffix_typeswitchCase (h : Operand single) : Suffix (typeswitchCase single) := by
  intro S
  have htype {k : StateStack} (hk : k.saved = S) :
      Leads k (sequenceType .operator) fun _ => ⟨.operator, S⟩ := by
    subst hk
    exact leads_sequenceType .operator
  refine leads_whenEats_back rfl ?_
  refine course_bind (level_caseVariable _) fun name k hk => ?_
  refine leads_bind (leads_separatedBy rfl (htype hk) (htype rfl)) fun types => ?_
  exact leads_bind (leads_expect rfl) fun _ => leads_bind (h S) fun _ => leads_pure rfl

theorem leads_defaultVariable :
    Leads ⟨.operator, S⟩ defaultVariable fun _ => ⟨.expression, S⟩ := by
  refine course_ifEat rfl ?_ (leads_bind (leads_expect rfl) fun _ => leads_pure rfl)
  refine leads_bind leads_variableName fun name => ?_
  exact leads_bind (leads_expect rfl) fun _ => leads_pure rfl

theorem operand_typeswitchExpr (h : Operand single) (offset : Nat) :
    Operand (typeswitchExpr single offset) := by
  refine fun S => leads_bind (operand_parenthesizedExpr h S) fun operand => ?_
  refine leads_bind (leads_many (suffix_typeswitchCase h S)) fun cases => ?_
  refine course_ite (fun _ => course_bind_stop (course_unexpected _)) fun _ => ?_
  refine leads_bind leads_defaultVariable fun name => leads_bind (h S) fun default => ?_
  exact keeps_node _ _ _

theorem suffix_catchClause (h : Operand single) : Suffix (catchClause single) := by
  refine fun S => leads_bind (suffix_catchTests S) ?_
  rintro (_ | ⟨tests, names⟩)
  · exact leads_pure rfl
  · exact leads_bind (leads_enclosedExpr h) fun _ => leads_pure rfl

theorem operand_tryCatch (h : Operand single) (offset : Nat) :
    Operand (tryCatch single offset) := by
  refine fun S => leads_bind (leads_enclosedExpr h) fun body => ?_
  refine leads_bind (leads_many (suffix_catchClause h S)) fun catches => ?_
  refine course_ite (fun _ => course_bind_stop (course_unexpected _)) fun _ => ?_
  exact keeps_node _ _ _

/-! ### Single expressions -/

theorem operand_singleOf (h : Operand single) : Operand (singleOf single) := by
  refine fun S => leads_bind (optionalOperand_flwor h S) ?_
  rintro (_ | e)
  · refine course_ifEat rfl ?_ (course_ifEat rfl ?_ (course_ifEat rfl ?_ (course_ifEat rfl ?_
      (course_ifEat rfl ?_ (course_ifEat rfl ?_ ?_)))))
    · exact keeps_start.bind fun offset => operand_quantified h _ offset S
    · exact keeps_start.bind fun offset => operand_quantified h _ offset S
    · exact keeps_start.bind fun offset => operand_switchExpr h offset S
    · exact keeps_start.bind fun offset => operand_typeswitchExpr h offset S
    · exact keeps_start.bind fun offset => operand_conditional h offset S
    · exact keeps_start.bind fun offset => operand_tryCatch h offset S
    · refine leads_bind (optionalOperand_updateExpr h S) ?_
      rintro (_ | e)
      · refine leads_bind (optionalOperand_scriptingExpr h S) ?_
        rintro (_ | e)
        · exact operand_orExpr h S
        · exact leads_pure rfl
      · exact leads_pure rfl
  · exact leads_pure rfl

/-- However far they may nest, single expressions begin before an operand and end behind one. -/
theorem operand_singleWithin (n : Nat) : Operand (singleWithin n) := by
  induction n with
  | zero => exact fun _ => course_exhausted
  | succ n ih => exact fun S => course_nested (operand_singleOf ih S)

theorem operand_exprSingle : Operand exprSingle :=
  fun S => keeps_get.bind fun _ => operand_singleWithin _ S

end XQuerySyntax.Grammar
