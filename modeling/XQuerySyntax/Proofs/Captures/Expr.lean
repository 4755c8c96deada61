import XQuerySyntax.Grammar.Expr
import XQuerySyntax.Proofs.Captures.Clause

/-! The parsers of markup, paths, operators and single expressions read captures behind their own matches
only. What stands behind the opener of a node is read by a parser of its own, which needs that match in front
of it. -/

namespace XQuerySyntax.Parser

open XQuerySyntax.Grammar

variable {single : Parser Expr}

/-! ### Markup -/

theorem supplied_dirComment (offset : Nat) : Supplied (dirComment offset) :=
  (supplied_lexeme _).seq fun _ => supplied_node _ _

/-- A processing instruction, whose target the opener has captured. -/
theorem suppliedBy_dirPi (offset : Nat) : SuppliedBy [.name] (dirPi offset) := by
  refine (suppliedBy_captured rfl).seq fun target => ?_
  have hend : Supplied (do
      let content ← lexeme (scanDelimited "?>" "processing instruction")
      node (.dirPi target (content.getD "")) offset) :=
    (supplied_lexeme _).seq fun _ => supplied_node _ _
  exact supplied_ite ((supplied_record _ _ _).seq fun _ => hend) hend

theorem supplied_bindAttribute (qualifier : Option String) (uri : String) (offset : Nat) :
    Supplied (do
      match qualifier with
      | some q =>
        if uri = "" then
          record .emptyNamespaceUri offset
            ("namespace prefix '" ++ q ++ "' cannot be bound to an empty URI")
        checkBinding q uri offset
        amend (·.bind q uri)
      | none =>
        checkDefaultNamespace uri offset
        amend (·.bind "" uri)
      return (⟨qualifier, uri⟩ : NamespaceBinding)) := by
  cases qualifier with
  | none =>
    refine (supplied_checkDefaultNamespace _ offset).seq fun _ => (supplied_amend _).seq fun _ => ?_
    exact supplied_pure _
  | some q =>
    have hbind : Supplied (do
        checkBinding q uri offset
        amend (·.bind q uri)
        return (⟨some q, uri⟩ : NamespaceBinding)) :=
      (supplied_checkBinding q _ offset).seq fun _ => (supplied_amend _).seq fun _ => supplied_pure _
    exact supplied_ite ((supplied_record _ _ _).seq fun _ => hbind) hbind

theorem supplied_namespaceAttribute (qualifier : Option String) (value : List (AttributeValuePart Expr))
    (offset : Nat) (earlier : List NamespaceBinding) :
    Supplied (namespaceAttribute qualifier value offset earlier) := by
  refine (supplied_forIn (fun _ => supplied_record _ _ _) _).seq fun _ => ?_
  have hend := supplied_bindAttribute qualifier (AttributeValuePart.literalText value) offset
  exact supplied_ite ((supplied_record _ _ _).seq fun _ => hend) hend

theorem supplied_resolveAttributes (seen : List ExpandedName) (raw : List RawAttribute) :
    Supplied (resolveAttributes seen raw) := by
  induction raw generalizing seen with
  | nil => exact supplied_pure []
  | cons a rest ih =>
    refine (supplied_plainName a.name a.offset).seq fun name => ?_
    have hend : Supplied (do
        return (⟨name, a.value, a.offset⟩ : DirAttribute Expr) ::
          (← resolveAttributes (name.expanded :: seen) rest)) := (ih _).seq fun _ => supplied_pure _
    exact supplied_ite ((supplied_record _ _ _).seq fun _ => hend) hend

theorem supplied_enclosedContent (h : Supplied single) : Supplied (enclosedContent single) := by
  refine (supplied_observe _).seq fun offset => supplied_ifEat (supplied_node _ _) ?_
  refine (supplied_expr h).seq fun e => (supplied_eat _).seq fun _ => supplied_ite ?_ (supplied_pure e)
  exact (supplied_unexpected _).seq fun _ => supplied_pure e

theorem supplied_attributeValueStep (h : Supplied single) (delimiter : Char) (close : Rule)
    (parts : List (AttributeValuePart Expr)) : Supplied (attributeValueStep single delimiter close parts) := by
  refine (supplied_lexeme _).seq ?_
  rintro (_ | text)
  · refine supplied_ifEat (supplied_pure _) (supplied_ifEat ?_ (supplied_unexpected _))
    exact (supplied_enclosedContent h).seq fun _ => supplied_pure _
  · exact supplied_pure _

theorem supplied_attributeValue (h : Supplied single) : Supplied (attributeValue single) := by
  have hquoted (delimiter : Char) (close : Rule) : Supplied (do
      return ← iterate (attributeValueStep single delimiter close) []) :=
    supplied_iterate (supplied_attributeValueStep h delimiter close) _
  exact supplied_ifEat (hquoted _ _) (supplied_ifEat (hquoted _ _) (supplied_unexpected _))

theorem supplied_tagAttributeStep (h : Supplied single) (tag : TagAttributes) :
    Supplied (tagAttributeStep single tag) := by
  refine supplied_unlessCaptures (supplied_pure _) (spares_start.bind fun offset => ?_)
  refine (suppliedBy_captured (by decide)).seq fun name => ?_
  refine (supplied_attributeValue h).seq fun value => supplied_ite ?_ (supplied_ite ?_ (supplied_pure _))
  · exact (supplied_namespaceAttribute none value offset _).seq fun _ => supplied_pure _
  · exact (supplied_namespaceAttribute (some name.localPart) value offset _).seq fun _ => supplied_pure _

theorem supplied_nestedNode {element : Nat → Parser Expr}
    (h : ∀ offset, SuppliedBy [.qualifiedName] (element offset)) : Supplied (nestedNode element) := by
  refine supplied_ifCaptures ?_ (supplied_ifEat ?_ (supplied_ifEat ?_ (supplied_ifCaptures ?_
    (supplied_pure none))))
  · exact spares_start.bind fun offset => (h offset).seq fun _ => supplied_pure _
  · exact (supplied_lexeme _).seq fun _ => supplied_pure _
  · exact (supplied_observe _).seq fun offset => (supplied_dirComment offset).seq fun _ => supplied_pure _
  · exact spares_start.bind fun offset => (suppliedBy_dirPi offset).seq fun _ => supplied_pure _

theorem suppliedBy_checkEndTag (opened : LexicalName) : SuppliedBy [.qualifiedName] (checkEndTag opened) := by
  refine (suppliedBy_captured rfl).seq fun closed => supplied_ite ?_ (supplied_pure ())
  exact (supplied_observe _).seq fun offset => supplied_fatal _ _ _

theorem supplied_elementContentStep (hs : Supplied single) {element : Nat → Parser Expr}
    (he : ∀ offset, SuppliedBy [.qualifiedName] (element offset)) (strip : Bool) (opened : LexicalName)
    (content : List (DirContent Expr)) : Supplied (elementContentStep single element strip opened content) := by
  refine supplied_ifCaptures ((suppliedBy_checkEndTag opened).seq fun _ => supplied_pure _)
    ((supplied_nestedNode he).seq ?_)
  rintro (_ | inner)
  · refine (supplied_lexeme _).seq ?_
    rintro (_ | text)
    · refine supplied_ifEat ((supplied_enclosedContent hs).seq fun _ => supplied_pure _) ?_
      refine (supplied_observe _).seq fun atEnd => supplied_ite ?_ (supplied_unexpected _)
      exact (supplied_observe _).seq fun pos => (supplied_fatal _ _ _).seq fun _ => supplied_unexpected _
    · exact supplied_ite (supplied_pure _) (supplied_pure _)
  · exact supplied_pure _

theorem supplied_elementInFrame (hs : Supplied single) {element : Nat → Parser Expr}
    (he : ∀ offset, SuppliedBy [.qualifiedName] (element offset)) (opened : LexicalName) (offset : Nat) :
    Supplied (elementInFrame single element opened offset) := by
  have hcontent : Supplied (elementContent single element opened) :=
    (supplied_consult _).seq fun strip => supplied_iterate (supplied_elementContentStep hs he strip opened) _
  refine (supplied_iterate (supplied_tagAttributeStep hs) _).seq fun tag => ?_
  refine (supplied_elementName opened offset).seq fun name => ?_
  refine (supplied_resolveAttributes [] tag.raw).seq fun attributes => ?_
  have hend : Supplied (do
      let content ← elementContent single element opened
      node (.dirElement ⟨name, attributes, tag.namespaces, content, false⟩) offset) :=
    hcontent.seq fun _ => supplied_node _ _
  refine supplied_ifEat (supplied_node _ _) ((supplied_eat _).seq fun _ => supplied_ite ?_ hend)
  exact (supplied_unexpected _).seq fun _ => hend

/-- An element, whose name the opener has captured. The name is read before anything else is matched. -/
theorem suppliedBy_dirElement (h : Supplied single) (offset : Nat) :
    SuppliedBy [.qualifiedName] (dirElement single offset) := by
  refine spares_get.bind fun s => ?_
  -- On the number of elements inside one another; each is read behind an opener of its own.
  induction s.steps generalizing offset with
  | zero => exact supplied_exhausted.behind
  | succ steps ih =>
    refine (suppliedBy_captured rfl).seq fun opened => supplied_nested ((supplied_amend _).seq fun _ => ?_)
    refine (supplied_elementInFrame h ih opened offset).seq fun e => ?_
    exact (supplied_amend _).seq fun _ => supplied_pure e

theorem supplied_directConstructor (h : Supplied single) : Supplied (directConstructor single) := by
  refine supplied_ifCaptures ?_ (supplied_ifEat ?_ (supplied_ifCaptures ?_ (supplied_pure none)))
  · exact spares_start.bind fun offset => (suppliedBy_dirElement h offset).some
  · exact (supplied_observe _).seq fun offset => (supplied_dirComment offset).some
  · exact spares_start.bind fun offset => (suppliedBy_dirPi offset).some

theorem suppliedBy_literalName : SuppliedBy [.name] literalName :=
  (suppliedBy_captured rfl).seq fun _ => supplied_pure _

theorem supplied_computedKind (h : Supplied single) : Supplied (computedKind single) := by
  have hname : Supplied (computedName single) := (supplied_bracedExpr h).seq fun _ => supplied_pure _
  have henclosed (form : Expr → ExprKind Expr) : Supplied (do return some (form (← enclosedExpr single))) :=
    (supplied_enclosedExpr h).seq fun _ => supplied_pure _
  have hoptional (form : Option Expr → ExprKind Expr) :
      Supplied (do return some (form (← optionalExpr single))) :=
    (supplied_optionalExpr h).seq fun _ => supplied_pure _
  have hresolved {resolve : LexicalName → Nat → Parser QName} (form : QName → Option Expr → ExprKind Expr)
      (hresolve : ∀ name offset, Supplied (resolve name offset)) : SuppliedBy [.qualifiedName] (do
        let offset ← start
        let name ← resolve (← capturedQualifiedName 0) offset
        return some (form name (← optionalExpr single))) :=
    spares_start.bind fun offset => (suppliedBy_captured rfl).seq fun name =>
      (hresolve name offset).seq fun _ => hoptional _
  refine supplied_ifEat (henclosed _) (supplied_ifCaptures (hresolved _ supplied_elementName)
    (supplied_ifEat (hname.seq fun _ => hoptional _)
    (supplied_ifCaptures (hresolved _ supplied_plainName)
    (supplied_ifEat (hname.seq fun _ => hoptional _) (supplied_ifEat (henclosed _) (supplied_ifEat (henclosed _)
    (supplied_ifCaptures (suppliedBy_literalName.seq fun _ => hoptional _)
    (supplied_ifEat (hname.seq fun _ => hoptional _)
    (supplied_ifCaptures (suppliedBy_literalName.seq fun _ => henclosed _)
    (supplied_ifEat (hname.seq fun _ => henclosed _) (supplied_pure none)))))))))))

/-! ### Paths -/

theorem supplied_nodeTest (axis : Axis) : Supplied (nodeTest axis) := by
  refine supplied_kindTest.seq ?_
  rintro (_ | test)
  · have hnamespace : Supplied (nameTestNamespace axis) := supplied_ite (supplied_pure none) (supplied_consult _)
    refine hnamespace.seq fun default => (supplied_nameTest default).seq ?_
    rintro (_ | test)
    · exact supplied_unexpected _
    · exact supplied_pure _
  · exact supplied_pure _

theorem supplied_stepTest : Supplied stepTest := by
  refine (supplied_observe _).seq fun begin => supplied_ifCaptures ?_ (supplied_ifEat ?_ (supplied_ifEat ?_
    (supplied_kindTest.seq ?_)))
  · refine spares_start.bind fun offset => (suppliedBy_captured (by decide)).seq fun name => ?_
    cases Axis.ofName? name with
    | none => exact supplied_fatal _ _ _
    | some axis => exact (supplied_nodeTest axis).seq fun _ => supplied_pure _
  · exact (supplied_observe _).seq fun offset => (supplied_nodeTest .attribute).seq fun _ => supplied_pure _
  · exact (supplied_observe _).seq fun offset => supplied_pure _
  · rintro (_ | test)
    · have hnamespace : Supplied (nameTestNamespace .child) :=
        supplied_ite (supplied_pure none) (supplied_consult _)
      refine hnamespace.seq fun default => (supplied_nameTest default).seq ?_
      rintro (_ | test)
      · exact supplied_pure none
      · exact supplied_pure _
    · exact supplied_pure _

theorem supplied_filtered (base : Expr) (predicates : List Expr) : Supplied (filtered base predicates) := by
  cases predicates with
  | nil => exact supplied_pure base
  | cons p ps => exact supplied_node _ _

theorem supplied_literal? : Supplied literal? := by
  refine supplied_ifCaptures ?_ (supplied_ifCaptures ?_ (supplied_pure none))
  · refine spares_start.bind fun offset => (suppliedBy_captured (by decide)).seq fun value => ?_
    exact (supplied_node _ _).some
  · refine spares_start.bind fun offset => (suppliedBy_captured (by decide)).seq fun text => ?_
    exact (supplied_node _ _).some

theorem suppliedBy_namedFunctionRef : SuppliedBy [.qualifiedName, .number] namedFunctionRef := by
  refine spares_start.bind fun offset => suppliedBy_read rfl fun lexical => ?_
  refine (suppliedBy_captured rfl).seq fun number => ?_
  split
  · exact (supplied_functionName lexical offset).seq fun _ => supplied_node _ _
  · exact supplied_fatal _ _ _

theorem supplied_predicate (h : Supplied single) : Supplied (predicate single) :=
  (supplied_expr h).seq fun _ => (supplied_expect _).seq fun _ => supplied_pure _

theorem supplied_axisStep (h : Supplied single) : Supplied (axisStep single) := by
  refine supplied_stepTest.seq ?_
  rintro (_ | ⟨axis, test, offset⟩)
  · exact supplied_pure none
  · refine (supplied_goto _).seq fun _ => ?_
    refine (supplied_many (supplied_whenEats (supplied_predicate h))).seq fun ps => ?_
    exact (supplied_node _ _).some

theorem supplied_argumentList (h : Supplied single) : Supplied (argumentList single) := by
  have hargument : Supplied (argument single) :=
    supplied_ifEat ((supplied_observe _).seq fun _ => supplied_node _ _) h
  refine supplied_ifEat (supplied_pure _) ((supplied_separatedBy hargument).seq fun args => ?_)
  exact (supplied_expect _).seq fun _ => supplied_pure args

theorem supplied_applications (h : Supplied single) (base : Expr) : Supplied (applications single base) := by
  refine supplied_iterate (fun ⟨base, ps⟩ => supplied_ifEat ?_ (supplied_ifEat ?_ ?_)) _
  · exact (supplied_predicate h).seq fun _ => supplied_pure _
  · refine (supplied_filtered base ps).seq fun function => (supplied_argumentList h).seq fun args => ?_
    exact (supplied_node _ _).seq fun _ => supplied_pure _
  · exact (supplied_filtered base ps).seq fun _ => supplied_pure _

theorem supplied_parenthesized (h : Supplied single) : Supplied (parenthesized single) := by
  refine (supplied_observe _).seq fun offset => supplied_ifEat (supplied_node _ _) ?_
  exact (supplied_expr h).seq fun _ => (supplied_expect _).seq fun _ => supplied_pure _

theorem supplied_functionCall? (h : Supplied single) : Supplied (functionCall? single) := by
  -- The name is read behind the test; the match after it may replace the captures.
  refine (tests_peek _).bind ?_ (supplied_pure none)
  refine (suppliedBy_captured (by decide)).seq fun lexical => supplied_ite (supplied_pure none) ?_
  refine (supplied_expect _).seq fun _ => ?_
  refine (supplied_observe _).seq fun offset => (supplied_functionName lexical offset).seq fun name => ?_
  exact (supplied_argumentList h).seq fun args => (supplied_node _ _).some

theorem supplied_constructorOrCall (h : Supplied single) :
    Supplied (do
      if let some e ← directConstructor single then
        return some e
      if let some e ← computedConstructor single then
        return some e
      if ← eat Terminal.orderedBlock then
        let offset ← start
        return some (← node (.ordered (← bracedExpr single)) offset)
      if ← eat Terminal.unorderedBlock then
        let offset ← start
        return some (← node (.unordered (← bracedExpr single)) offset)
      if ← peek Terminal.annotationName then
        return some (← inlineFunction single)
      if ← peek Terminal.inlineFunction then
        return some (← inlineFunction single)
      if ← eat Terminal.namedFunctionRef then
        return some (← namedFunctionRef)
      functionCall? single) := by
  have hordered (form : Expr → ExprKind Expr) : Supplied (do
      let offset ← start
      return some (← node (form (← bracedExpr single)) offset)) :=
    (supplied_observe _).seq fun _ => (supplied_bracedExpr h).seq fun _ => (supplied_node _ _).some
  refine (supplied_directConstructor h).seq ?_
  rintro (_ | e)
  · refine (supplied_form (supplied_computedKind h)).seq ?_
    rintro (_ | e)
    · exact supplied_ifEat (hordered _) (supplied_ifEat (hordered _)
        (supplied_ifPeek (supplied_inlineFunction h).some (supplied_ifPeek (supplied_inlineFunction h).some
        (supplied_ifCaptures suppliedBy_namedFunctionRef.some (supplied_functionCall? h)))))
    · exact supplied_pure _
  · exact supplied_pure _

theorem supplied_primary (h : Supplied single) : Supplied (primary single) := by
  have hend := supplied_constructorOrCall h
  refine supplied_literal?.seq ?_
  rintro (_ | e)
  · refine supplied_ifPeek ?_ (supplied_ifEat (supplied_parenthesized h).some
      ((supplied_peek _).seq fun _ => supplied_ite ?_ hend))
    · exact supplied_variableName.seq fun name => (supplied_observe _).seq fun offset => (supplied_node _ _).some
    · exact supplied_ifEat ((supplied_observe _).seq fun offset => (supplied_node _ _).some) hend
  · exact supplied_pure _

theorem supplied_stepExpr (h : Supplied single) : Supplied (stepExpr single) := by
  refine (supplied_primary h).seq ?_
  rintro (_ | base)
  · exact supplied_axisStep h
  · exact (supplied_applications h base).some

theorem supplied_requiredStep (h : Supplied single) : Supplied (requiredStep single) := by
  refine (supplied_stepExpr h).seq ?_
  rintro (_ | step)
  · exact supplied_unexpected _
  · exact supplied_pure step

theorem supplied_furtherSteps (h : Supplied single) : Supplied (furtherSteps single) := by
  refine supplied_ifEat ?_ (supplied_ifEat ((supplied_requiredStep h).seq fun _ => supplied_pure _)
    (supplied_pure none))
  refine (supplied_observe _).seq fun offset => (supplied_node _ _).seq fun descend => ?_
  exact (supplied_requiredStep h).seq fun _ => supplied_pure _

theorem supplied_relativePath (h : Supplied single) (origin : PathRoot) (first : List Expr) (offset : Nat) :
    Supplied (relativePath single origin first offset) := by
  refine (supplied_many (supplied_furtherSteps h)).seq fun rest => ?_
  dsimp only
  split
  · split
    · exact supplied_node _ _
    · exact supplied_pure _
  · exact supplied_node _ _

theorem supplied_pathExpr (h : Supplied single) : Supplied (pathExpr single) := by
  refine supplied_ifEat ?_ (supplied_ifEat ?_ ?_)
  · refine (supplied_observe _).seq fun offset => (supplied_node _ _).seq fun descend => ?_
    exact (supplied_requiredStep h).seq fun step => supplied_relativePath h _ _ offset
  · refine (supplied_observe _).seq fun offset => (supplied_stepExpr h).seq ?_
    rintro (_ | step)
    · exact (supplied_goto _).seq fun _ => supplied_node _ _
    · exact supplied_relativePath h _ _ offset
  · exact (supplied_requiredStep h).seq fun step => supplied_relativePath h _ _ _

/-! ### Operators -/

theorem supplied_chain {operand : Parser Expr} (operators : OperatorTable) (h : Supplied operand) :
    Supplied (chain operators operand) := by
  refine h.seq fun first => supplied_iterate (fun left => (supplied_eatFirst _).seq ?_) first
  rintro (_ | op)
  · exact supplied_pure _
  · refine (supplied_observe _).seq fun offset => h.seq fun right => ?_
    exact (supplied_node _ _).seq fun _ => supplied_pure _

theorem supplied_suffixed {operand : Parser Expr} {form : Expr → Parser (ExprKind Expr)} (r : Rule)
    (h : Supplied operand) (hf : ∀ e, Supplied (form e)) : Supplied (suffixed r operand form) := by
  refine h.seq fun left => supplied_ifEat ?_ (supplied_pure left)
  exact (supplied_observe _).seq fun offset => (hf left).seq fun kind => supplied_node _ _

theorem supplied_applySigns (operand : Expr) (signs : List (UnaryOperator × Nat)) :
    Supplied (applySigns operand signs) := by
  induction signs with
  | nil => exact supplied_pure operand
  | cons sign signs ih => exact ih.seq fun _ => supplied_node _ _

theorem supplied_valueExpr (h : Supplied single) : Supplied (valueExpr single) := by
  have hbody (mode : Option ValidationMode) (typeName : Option QName) (offset : Nat) : Supplied (do
      return ← node (.validate mode typeName (← bracedExpr single)) offset) :=
    (supplied_bracedExpr h).seq fun _ => supplied_node _ _
  refine supplied_ifCaptures ?_ (supplied_ifCaptures ?_ (supplied_ifEat ?_
    (supplied_ifPeek (supplied_extensionExpr h) (supplied_pathExpr h))))
  · refine spares_start.bind fun offset => (suppliedBy_captured (by decide)).seq fun lexical => ?_
    exact (supplied_elementName lexical offset).seq fun typeName => hbody _ _ offset
  · refine spares_start.bind fun offset => (suppliedBy_captured (by decide)).seq fun name => ?_
    have hmode : Supplied (validationMode name offset) :=
      supplied_ite (supplied_pure _) (supplied_ite (supplied_pure _) (supplied_fatal _ _ _))
    exact hmode.seq fun mode => hbody _ _ offset
  · exact (supplied_observe _).seq fun offset => hbody _ _ offset

theorem supplied_unaryExpr (h : Supplied single) : Supplied (unaryExpr single) := by
  have hsign : Supplied sign? := by
    refine (supplied_eatFirst _).seq ?_
    rintro (_ | op)
    · exact supplied_pure none
    · exact (supplied_observe _).seq fun _ => supplied_pure _
  exact (supplied_many hsign).seq fun signs => (supplied_valueExpr h).seq fun e => supplied_applySigns e signs

theorem supplied_instanceOfExpr (h : Supplied single) : Supplied (instanceOfExpr single) := by
  refine supplied_suffixed _ (supplied_suffixed _ (supplied_suffixed _ (supplied_suffixed _ (supplied_unaryExpr h)
    fun e => ?_) fun e => ?_) fun e => ?_) fun e => ?_
  · exact supplied_singleType.seq fun _ => supplied_pure _
  · exact supplied_singleType.seq fun _ => supplied_pure _
  · exact (supplied_sequenceType _).seq fun _ => supplied_pure _
  · exact (supplied_sequenceType _).seq fun _ => supplied_pure _

theorem supplied_unionExpr (h : Supplied single) : Supplied (unionExpr single) :=
  supplied_chain _ (supplied_chain _ (supplied_instanceOfExpr h))

theorem supplied_additiveExpr (h : Supplied single) : Supplied (additiveExpr single) :=
  supplied_chain _ (supplied_chain _ (supplied_unionExpr h))

theorem supplied_ftContainsExpr (h : Supplied single) : Supplied (ftContainsExpr single) := by
  have hrange : Supplied (rangeExpr single) :=
    supplied_suffixed _ (supplied_additiveExpr h) fun _ => (supplied_additiveExpr h).seq fun _ => supplied_pure _
  refine hrange.seq fun left => (supplied_eatFirst _).seq fun _ => supplied_ite (supplied_pure left) ?_
  refine (supplied_observe _).seq fun offset => ?_
  refine (supplied_ftSelection h (supplied_additiveExpr h)).seq fun selection => ?_
  exact (supplied_whenEats (supplied_unionExpr h)).seq fun _ => supplied_node _ _

theorem supplied_orExpr (h : Supplied single) : Supplied (orExpr single) := by
  refine supplied_chain _ (supplied_chain _ ((supplied_ftContainsExpr h).seq fun left =>
    (supplied_eatFirst _).seq ?_))
  rintro (_ | op)
  · exact supplied_pure left
  · refine (supplied_observe _).seq fun offset => (supplied_ftContainsExpr h).seq fun right => ?_
    exact supplied_node _ _

/-! ### Single expressions -/

theorem supplied_errorTest : Supplied errorTest := by
  refine (supplied_nameTest none).seq ?_
  rintro (_ | test)
  · exact supplied_unexpected _
  · exact supplied_pure test

theorem supplied_catchTests : Supplied catchTests := by
  refine supplied_ifEat ?_ (supplied_ifEat ?_ (supplied_pure none))
  · refine supplied_errorTest.seq fun test => ?_
    refine (supplied_many (supplied_whenEats supplied_variableName)).seq fun names => ?_
    exact (supplied_expect _).seq fun _ => supplied_pure _
  · exact (supplied_separatedBy supplied_errorTest).seq fun _ => supplied_pure _

theorem supplied_quantified (h : Supplied single) (quantifier : Quantifier) (offset : Nat) :
    Supplied (quantified single quantifier offset) := by
  have hbinding : Supplied (quantifiedBinding single) :=
    supplied_typedVariable.seq fun ⟨_, _⟩ => (supplied_expect _).seq fun _ => h.seq fun _ => supplied_pure _
  refine (supplied_separatedBy hbinding).seq fun bindings => (supplied_expect _).seq fun _ => ?_
  exact h.seq fun _ => supplied_node _ _

theorem supplied_conditional (h : Supplied single) (offset : Nat) : Supplied (conditional single offset) := by
  refine (supplied_parenthesizedExpr h).seq fun condition => (supplied_expect _).seq fun _ => h.seq fun _ => ?_
  exact (supplied_expect _).seq fun _ => h.seq fun _ => supplied_node _ _

theorem supplied_switchCase (h : Supplied single) : Supplied (switchCase single) := by
  refine (supplied_many (supplied_whenEats h)).seq ?_
  rintro (_ | ⟨operand, operands⟩)
  · exact supplied_pure none
  · exact (supplied_expect _).seq fun _ => h.seq fun _ => supplied_pure _

theorem supplied_switchExpr (h : Supplied single) (offset : Nat) : Supplied (switchExpr single offset) := by
  refine (supplied_parenthesizedExpr h).seq fun operand => ?_
  refine (supplied_many (supplied_switchCase h)).seq fun cases => ?_
  have hend : Supplied (do
      expect Terminal.defaultReturn
      let default ← single
      node (.switch operand cases default) offset) :=
    (supplied_expect _).seq fun _ => h.seq fun _ => supplied_node _ _
  exact supplied_ite ((supplied_unexpected _).seq fun _ => hend) hend

theorem supplied_typeswitchCase (h : Supplied single) : Supplied (typeswitchCase single) := by
  have hvariable : Supplied caseVariable := by
    refine supplied_ifPeek (supplied_variableName.seq fun name => ?_) (supplied_pure none)
    exact (supplied_expect _).seq fun _ => supplied_pure _
  refine supplied_whenEats (hvariable.seq fun name => ?_)
  refine (supplied_separatedBy (supplied_sequenceType _)).seq fun types => ?_
  exact (supplied_expect _).seq fun _ => h.seq fun _ => supplied_pure _

theorem supplied_typeswitchExpr (h : Supplied single) (offset : Nat) :
    Supplied (typeswitchExpr single offset) := by
  have hvariable : Supplied defaultVariable := by
    refine supplied_ifEat (supplied_variableName.seq fun name => ?_)
      ((supplied_expect _).seq fun _ => supplied_pure none)
    exact (supplied_expect _).seq fun _ => supplied_pure _
  refine (supplied_parenthesizedExpr h).seq fun operand => ?_
  refine (supplied_many (supplied_typeswitchCase h)).seq fun cases => ?_
  have hend : Supplied (do
      let name ← defaultVariable
      let default ← single
      node (.typeswitch operand cases name default) offset) :=
    hvariable.seq fun _ => h.seq fun _ => supplied_node _ _
  exact supplied_ite ((supplied_unexpected _).seq fun _ => hend) hend

theorem supplied_catchClause (h : Supplied single) : Supplied (catchClause single) := by
  refine supplied_catchTests.seq ?_
  rintro (_ | ⟨tests, names⟩)
  · exact supplied_pure none
  · exact (supplied_enclosedExpr h).seq fun _ => supplied_pure _

theorem supplied_tryCatch (h : Supplied single) (offset : Nat) : Supplied (tryCatch single offset) := by
  refine (supplied_enclosedExpr h).seq fun body => (supplied_many (supplied_catchClause h)).seq fun catches => ?_
  exact supplied_ite ((supplied_unexpected _).seq fun _ => supplied_node _ _) (supplied_node _ _)

theorem supplied_singleOf (h : Supplied single) : Supplied (singleOf single) := by
  have hword {p : Nat → Parser Expr} (hp : ∀ offset, Supplied (p offset)) :
      Supplied (do return ← p (← start)) :=
    (supplied_observe _).seq hp
  refine (supplied_flwor h).seq ?_
  rintro (_ | e)
  · refine supplied_ifEat (hword fun _ => supplied_quantified h _ _)
      (supplied_ifEat (hword fun _ => supplied_quantified h _ _)
      (supplied_ifEat (hword fun _ => supplied_switchExpr h _)
      (supplied_ifEat (hword fun _ => supplied_typeswitchExpr h _)
      (supplied_ifEat (hword fun _ => supplied_conditional h _)
      (supplied_ifEat (hword fun _ => supplied_tryCatch h _)
      ((supplied_updateExpr h).seq ?_))))))
    rintro (_ | e)
    · refine (supplied_scriptingExpr h).seq ?_
      rintro (_ | e)
      · exact supplied_orExpr h
      · exact supplied_pure e
    · exact supplied_pure e
  · exact supplied_pure e

/-- The parser of single expressions is composed of plain steps. -/
theorem supplied_exprSingle : Supplied exprSingle := by
  refine supplied_steps singleWithin fun steps => ?_
  induction steps with
  | zero => exact supplied_exhausted
  | succ steps ih => exact supplied_nested (supplied_singleOf ih)

end XQuerySyntax.Parser
