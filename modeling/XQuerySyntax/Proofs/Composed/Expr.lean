import XQuerySyntax.Grammar.Expr
import XQuerySyntax.Proofs.Composed.Clause

/-! The parsers of markup, paths, operators and single expressions are composed of plain steps. A
processing instruction is the one place where a malformed part is passed over: its target is known to be
wrong once its opener has been read. -/

namespace XQuerySyntax.Parser

open XQuerySyntax.Grammar

variable {single : Parser Expr} {K : Nat → Prop}

/-! ### Markup -/

theorem plain_lexeme {α : Type} {scanner : List Char → Scanned α} (h : ∀ text, (scanner text).Within text) :
    Plain (lexeme scanner) := fun _ => .lexeme h

theorem plain_dirComment (offset : Nat) : Plain (dirComment offset) :=
  (plain_lexeme scanMarkupComment_within).seq fun _ => plain_node _ _

theorem composed_dirPi {offset : Nat} (h : K offset) : Composed K none (dirPi offset) := by
  have hend (target : String) : Plain (do
      let content ← lexeme (scanDelimited "?>" "processing instruction")
      node (.dirPi target (content.getD "")) offset) :=
    (plain_lexeme (scanDelimited_within _ _)).seq fun _ => plain_node _ _
  refine .bind (plain_observe _ K) fun target => ?_
  dsimp only
  split
  · exact .bind (.recordMalformed h _) fun _ => hend target K
  · exact hend target K

/-- A processing instruction behind its opener. -/
theorem plain_ifPi {β : Type} {r : Rule} (hr : r.isVisible = true) {form : Expr → β} {no : Parser (Option β)}
    (hn : Plain no) :
    Plain (eat r >>= fun matched => if matched then (do return some (form (← dirPi (← start)))) else no) :=
  fun K => .ifTook hr (fun _ => .bind (composed_dirPi (.inl rfl)) fun _ => .pure _) (hn K)

theorem plain_bind (qualifier uri : String) : Plain (amend (·.bind qualifier uri)) :=
  fun _ => .bindNamespace qualifier uri

theorem plain_bindAttribute (qualifier : Option String) (uri : String) (offset : Nat) :
    Plain (do
      match qualifier with
      | some q =>
        if uri = "" then
          record .emptyNamespaceUri offset
            ("namespace prefix '" ++ q ++ "' cannot be bound to an empty URI")
        checkBinding q uri offset
        amend (·.bind q uri)
      | none =>
        checkDefaultNamespace uri offset
        amend (·.bind "" uri)
      return (⟨qualifier, uri⟩ : NamespaceBinding)) := by
  cases qualifier with
  | none => exact (plain_checkDefaultNamespace _ offset).seq fun _ => (plain_bind _ _).seq fun _ => plain_pure _
  | some q =>
    have hbind : Plain (do
        checkBinding q uri offset
        amend (·.bind q uri)
        return (⟨some q, uri⟩ : NamespaceBinding)) :=
      (plain_checkBinding q _ offset).seq fun _ => (plain_bind _ _).seq fun _ => plain_pure _
    exact plain_ite ((plain_record rfl _ _).seq fun _ => hbind) hbind

theorem plain_namespaceAttribute (qualifier : Option String) (value : List (AttributeValuePart Expr))
    (offset : Nat) (earlier : List NamespaceBinding) :
    Plain (namespaceAttribute qualifier value offset earlier) := by
  refine (plain_forIn (fun _ => plain_record rfl _ _) _).seq fun _ => ?_
  have hend := plain_bindAttribute qualifier (AttributeValuePart.literalText value) offset
  exact plain_ite ((plain_record rfl _ _).seq fun _ => hend) hend

theorem plain_resolveAttributes (seen : List ExpandedName) (raw : List RawAttribute) :
    Plain (resolveAttributes seen raw) := by
  induction raw generalizing seen with
  | nil => exact plain_pure []
  | cons a rest ih =>
    refine (plain_plainName a.name a.offset).seq fun name => ?_
    have hend : Plain (do
        return (⟨name, a.value, a.offset⟩ : DirAttribute Expr) ::
          (← resolveAttributes (name.expanded :: seen) rest)) := (ih _).seq fun _ => plain_pure _
    exact plain_ite ((plain_record rfl _ _).seq fun _ => hend) hend

theorem plain_enclosedContent (h : Plain single) : Plain (enclosedContent single) := by
  refine (plain_observe _).seq fun offset => plain_ifEat (plain_node _ _) ?_
  refine (plain_expr h).seq fun e => (plain_eat _).seq fun _ => plain_ite ?_ (plain_pure e)
  exact (plain_unexpected _).seq fun _ => plain_pure e

theorem plain_attributeValueStep (h : Plain single) (delimiter : Char) (close : Rule)
    (parts : List (AttributeValuePart Expr)) : Plain (attributeValueStep single delimiter close parts) := by
  refine (plain_lexeme (scanMarkupText_within _)).seq ?_
  rintro (_ | text)
  · refine plain_ifEat (plain_pure _) (plain_ifEat ?_ (plain_unexpected _))
    exact (plain_enclosedContent h).seq fun _ => plain_pure _
  · exact plain_pure _

theorem plain_attributeValue (h : Plain single) : Plain (attributeValue single) := by
  have hquoted (delimiter : Char) (close : Rule) : Plain (do
      return ← iterate (attributeValueStep single delimiter close) []) :=
    plain_iterate (plain_attributeValueStep h delimiter close) _
  exact plain_ifEat (hquoted _ _) (plain_ifEat (hquoted _ _) (plain_unexpected _))

theorem plain_tagAttributeStep (h : Plain single) (tag : TagAttributes) :
    Plain (tagAttributeStep single tag) := by
  refine (plain_eat _).seq fun _ => plain_ite (plain_pure _) ?_
  refine (plain_observe _).seq fun offset => (plain_observe _).seq fun name => ?_
  refine (plain_attributeValue h).seq fun value => plain_ite ?_ (plain_ite ?_ (plain_pure _))
  · exact (plain_namespaceAttribute none value offset _).seq fun _ => plain_pure _
  · exact (plain_namespaceAttribute (some name.localPart) value offset _).seq fun _ => plain_pure _

theorem plain_nestedNode {element : Nat → Parser Expr} (h : ∀ offset, Plain (element offset)) :
    Plain (nestedNode element) := by
  refine plain_ifEat ?_ (plain_ifEat ?_ (plain_ifEat ?_ (plain_ifPi (by rfl) (plain_pure none))))
  · exact (plain_observe _).seq fun offset => (h offset).seq fun _ => plain_pure _
  · exact (plain_lexeme scanLiteralSection_within).seq fun _ => plain_pure _
  · exact (plain_observe _).seq fun offset => (plain_dirComment offset).seq fun _ => plain_pure _

theorem plain_checkEndTag (opened : LexicalName) : Plain (checkEndTag opened) := by
  refine (plain_observe _).seq fun closed => plain_ite ?_ (plain_pure ())
  exact (plain_observe _).seq fun offset => plain_fatal _ _ _

theorem plain_elementContentStep (hs : Plain single) {element : Nat → Parser Expr}
    (he : ∀ offset, Plain (element offset)) (strip : Bool) (opened : LexicalName)
    (content : List (DirContent Expr)) : Plain (elementContentStep single element strip opened content) := by
  refine plain_ifEat ((plain_checkEndTag opened).seq fun _ => plain_pure _) ((plain_nestedNode he).seq ?_)
  rintro (_ | inner)
  · refine (plain_lexeme (scanMarkupText_within _)).seq ?_
    rintro (_ | text)
    · refine plain_ifEat ((plain_enclosedContent hs).seq fun _ => plain_pure _) ?_
      refine (plain_observe _).seq fun atEnd => plain_ite ?_ (plain_unexpected _)
      exact (plain_observe _).seq fun pos => (plain_fatal _ _ _).seq fun _ => plain_unexpected _
    · exact plain_ite (plain_pure _) (plain_pure _)
  · exact plain_pure _

theorem plain_elementInFrame (hs : Plain single) {element : Nat → Parser Expr}
    (he : ∀ offset, Plain (element offset)) (opened : LexicalName) (offset : Nat) :
    Plain (elementInFrame single element opened offset) := by
  have hcontent : Plain (elementContent single element opened) := by
    have hstrip : Plain (consult (·.boundarySpace == .strip)) :=
      fun _ => .consult fun _ _ h => congrArg (·.2.2.2 == BoundarySpace.strip) h
    exact hstrip.seq fun strip => plain_iterate (plain_elementContentStep hs he strip opened) _
  refine (plain_iterate (plain_tagAttributeStep hs) _).seq fun tag => ?_
  refine (plain_elementName opened offset).seq fun name => ?_
  refine (plain_resolveAttributes [] tag.raw).seq fun attributes => ?_
  have hend : Plain (do
      let content ← elementContent single element opened
      node (.dirElement ⟨name, attributes, tag.namespaces, content, false⟩) offset) :=
    hcontent.seq fun _ => plain_node _ _
  refine plain_ifEat (plain_node _ _) ((plain_eat _).seq fun _ => plain_ite ?_ hend)
  exact (plain_unexpected _).seq fun _ => hend

theorem plain_dirElement (h : Plain single) (offset : Nat) : Plain (dirElement single offset) := by
  refine plain_steps (dirElementWithin single · offset) fun steps => ?_
  induction steps generalizing offset with
  | zero => exact plain_exhausted
  | succ steps ih =>
    refine (plain_observe _).seq fun opened => plain_nested (Plain.seq (fun _ => .pushFrame) fun _ => ?_)
    refine (plain_elementInFrame h ih opened offset).seq fun e => ?_
    exact Plain.seq (fun _ => .popFrame) fun _ => plain_pure e

theorem plain_directConstructor (h : Plain single) : Plain (directConstructor single) := by
  refine plain_ifEat ?_ (plain_ifEat ?_ ?_)
  · exact (plain_observe _).seq fun offset => (plain_dirElement h offset).some
  · exact (plain_observe _).seq fun offset => (plain_dirComment offset).some
  · have hpi : Plain (do
        if ← eat Terminal.piOpen then
          return some (id (← dirPi (← start)))
        return none) := plain_ifPi (by rfl) (plain_pure none)
    exact hpi

theorem plain_computedKind (h : Plain single) : Plain (computedKind single) := by
  have hname : Plain (computedName single) := (plain_bracedExpr h).seq fun _ => plain_pure _
  have hliteral : Plain literalName := (plain_observe _).seq fun _ => plain_pure _
  have henclosed (form : Expr → ExprKind Expr) : Plain (do return some (form (← enclosedExpr single))) :=
    (plain_enclosedExpr h).seq fun _ => plain_pure _
  have hoptional (form : Option Expr → ExprKind Expr) :
      Plain (do return some (form (← optionalExpr single))) :=
    (plain_optionalExpr h).seq fun _ => plain_pure _
  refine plain_ifEat (henclosed _) (plain_ifEat (plain_capturedName plain_elementName fun _ => hoptional _)
    (plain_ifEat (hname.seq fun _ => hoptional _)
    (plain_ifEat (plain_capturedName plain_plainName fun _ => hoptional _)
    (plain_ifEat (hname.seq fun _ => hoptional _) (plain_ifEat (henclosed _) (plain_ifEat (henclosed _)
    (plain_ifEat (hliteral.seq fun _ => hoptional _) (plain_ifEat (hname.seq fun _ => hoptional _)
    (plain_ifEat (hliteral.seq fun _ => henclosed _) (plain_ifEat (hname.seq fun _ => henclosed _)
    (plain_pure none)))))))))))

/-! ### Paths -/

theorem plain_nodeTest (axis : Axis) : Plain (nodeTest axis) := by
  refine plain_kindTest.seq ?_
  rintro (_ | test)
  · have hnamespace : Plain (nameTestNamespace axis) := plain_ite (plain_pure none) plain_elementNamespace
    refine hnamespace.seq fun default => (plain_nameTest default).seq ?_
    rintro (_ | test)
    · exact plain_unexpected _
    · exact plain_pure _
  · exact plain_pure _

theorem plain_stepTest : Plain stepTest := by
  refine (plain_observe _).seq fun begin => plain_ifEat ?_ (plain_ifEat ?_ (plain_ifEat ?_ (plain_kindTest.seq ?_)))
  · refine (plain_observe _).seq fun offset => (plain_observe _).seq fun name => ?_
    cases Axis.ofName? name with
    | none => exact plain_fatal _ _ _
    | some axis => exact (plain_nodeTest axis).seq fun _ => plain_pure _
  · exact (plain_observe _).seq fun offset => (plain_nodeTest .attribute).seq fun _ => plain_pure _
  · exact (plain_observe _).seq fun offset => plain_pure _
  · rintro (_ | test)
    · have hnamespace : Plain (nameTestNamespace .child) := plain_ite (plain_pure none) plain_elementNamespace
      refine hnamespace.seq fun default => (plain_nameTest default).seq ?_
      rintro (_ | test)
      · exact plain_pure none
      · exact plain_pure _
    · exact plain_pure _

theorem plain_filtered (base : Expr) (predicates : List Expr) : Plain (filtered base predicates) := by
  cases predicates with
  | nil => exact plain_pure base
  | cons p ps => exact plain_node _ _

theorem plain_literal? : Plain literal? := by
  refine plain_ifEat ?_ (plain_ifEat ?_ (plain_pure none))
  · exact (plain_observe _).seq fun offset => (plain_observe _).seq fun value => (plain_node _ _).some
  · exact (plain_observe _).seq fun offset => (plain_observe _).seq fun text => (plain_node _ _).some

theorem plain_namedFunctionRef : Plain namedFunctionRef := by
  refine (plain_observe _).seq fun offset => (plain_observe _).seq fun lexical => ?_
  refine (plain_observe _).seq fun number => ?_
  split
  · exact (plain_functionName lexical offset).seq fun _ => plain_node _ _
  · exact plain_fatal _ _ _

theorem plain_predicate (h : Plain single) : Plain (predicate single) :=
  (plain_expr h).seq fun _ => (plain_expect _).seq fun _ => plain_pure _

theorem plain_axisStep (h : Plain single) : Plain (axisStep single) := by
  refine plain_stepTest.seq ?_
  rintro (_ | ⟨axis, test, offset⟩)
  · exact plain_pure none
  · refine (plain_goto _).seq fun _ => (plain_many (plain_whenEats (plain_predicate h))).seq fun ps => ?_
    exact (plain_node _ _).some

theorem plain_argumentList (h : Plain single) : Plain (argumentList single) := by
  have hargument : Plain (argument single) :=
    plain_ifEat ((plain_observe _).seq fun _ => plain_node _ _) h
  refine plain_ifEat (plain_pure _) ((plain_separatedBy hargument).seq fun args => ?_)
  exact (plain_expect _).seq fun _ => plain_pure args

theorem plain_applications (h : Plain single) (base : Expr) : Plain (applications single base) := by
  refine plain_iterate (fun ⟨base, ps⟩ => plain_ifEat ?_ (plain_ifEat ?_ ?_)) _
  · exact (plain_predicate h).seq fun _ => plain_pure _
  · refine (plain_filtered base ps).seq fun function => (plain_argumentList h).seq fun args => ?_
    exact (plain_node _ _).seq fun _ => plain_pure _
  · exact (plain_filtered base ps).seq fun _ => plain_pure _

theorem plain_parenthesized (h : Plain single) : Plain (parenthesized single) := by
  refine (plain_observe _).seq fun offset => plain_ifEat (plain_node _ _) ?_
  exact (plain_expr h).seq fun _ => (plain_expect _).seq fun _ => plain_pure _

theorem plain_functionCall? (h : Plain single) : Plain (functionCall? single) := by
  refine (plain_peek _).seq fun _ => plain_ite (plain_pure none) ?_
  refine (plain_observe _).seq fun lexical => plain_ite (plain_pure none) ((plain_expect _).seq fun _ => ?_)
  refine (plain_observe _).seq fun offset => (plain_functionName lexical offset).seq fun name => ?_
  exact (plain_argumentList h).seq fun args => (plain_node _ _).some

theorem plain_constructorOrCall (h : Plain single) :
    Plain (do
      if let some e ← directConstructor single then
        return some e
      if let some e ← computedConstructor single then
        return some e
      if ← eat Terminal.orderedBlock then
        let offset ← start
        return some (← node (.ordered (← bracedExpr single)) offset)
      if ← eat Terminal.unorderedBlock then
        let offset ← start
        return some (← node (.unordered (← bracedExpr single)) offset)
      if ← peek Terminal.annotationName then
        return some (← inlineFunction single)
      if ← peek Terminal.inlineFunction then
        return some (← inlineFunction single)
      if ← eat Terminal.namedFunctionRef then
        return some (← namedFunctionRef)
      functionCall? single) := by
  have hordered (form : Expr → ExprKind Expr) : Plain (do
      let offset ← start
      return some (← node (form (← bracedExpr single)) offset)) :=
    (plain_observe _).seq fun _ => (plain_bracedExpr h).seq fun _ => (plain_node _ _).some
  refine (plain_directConstructor h).seq ?_
  rintro (_ | e)
  · refine (plain_form (plain_computedKind h)).seq ?_
    rintro (_ | e)
    · exact plain_ifEat (hordered _) (plain_ifEat (hordered _) (plain_ifPeek (plain_inlineFunction h).some
        (plain_ifPeek (plain_inlineFunction h).some (plain_ifEat plain_namedFunctionRef.some
        (plain_functionCall? h)))))
    · exact plain_pure _
  · exact plain_pure _

theorem plain_primary (h : Plain single) : Plain (primary single) := by
  have hend := plain_constructorOrCall h
  refine plain_literal?.seq ?_
  rintro (_ | e)
  · refine plain_ifPeek ?_ (plain_ifEat (plain_parenthesized h).some ((plain_peek _).seq fun _ => plain_ite ?_ hend))
    · exact plain_variableName.seq fun name => (plain_observe _).seq fun offset => (plain_node _ _).some
    · exact plain_ifEat ((plain_observe _).seq fun offset => (plain_node _ _).some) hend
  · exact plain_pure _

theorem plain_stepExpr (h : Plain single) : Plain (stepExpr single) := by
  refine (plain_primary h).seq ?_
  rintro (_ | base)
  · exact plain_axisStep h
  · exact (plain_applications h base).some

theorem plain_requiredStep (h : Plain single) : Plain (requiredStep single) := by
  refine (plain_stepExpr h).seq ?_
  rintro (_ | step)
  · exact plain_unexpected _
  · exact plain_pure step

theorem plain_furtherSteps (h : Plain single) : Plain (furtherSteps single) := by
  refine plain_ifEat ?_ (plain_ifEat ((plain_requiredStep h).seq fun _ => plain_pure _) (plain_pure none))
  refine (plain_observe _).seq fun offset => (plain_node _ _).seq fun descend => ?_
  exact (plain_requiredStep h).seq fun _ => plain_pure _

theorem plain_relativePath (h : Plain single) (origin : PathRoot) (first : List Expr) (offset : Nat) :
    Plain (relativePath single origin first offset) := by
  refine (plain_many (plain_furtherSteps h)).seq fun rest => ?_
  dsimp only
  split
  · split
    · exact plain_node _ _
    · exact plain_pure _
  · exact plain_node _ _

theorem plain_pathExpr (h : Plain single) : Plain (pathExpr single) := by
  refine plain_ifEat ?_ (plain_ifEat ?_ ?_)
  · refine (plain_observe _).seq fun offset => (plain_node _ _).seq fun descend => ?_
    exact (plain_requiredStep h).seq fun step => plain_relativePath h _ _ offset
  · refine (plain_observe _).seq fun offset => (plain_stepExpr h).seq ?_
    rintro (_ | step)
    · exact (plain_goto _).seq fun _ => plain_node _ _
    · exact plain_relativePath h _ _ offset
  · exact (plain_requiredStep h).seq fun step => plain_relativePath h _ _ _

/-! ### Operators -/

theorem plain_chain {operand : Parser Expr} (operators : OperatorTable) (h : Plain operand) :
    Plain (chain operators operand) := by
  refine h.seq fun first => plain_iterate (fun left => (plain_eatFirst _).seq ?_) first
  rintro (_ | op)
  · exact plain_pure _
  · refine (plain_observe _).seq fun offset => h.seq fun right => ?_
    exact (plain_node _ _).seq fun _ => plain_pure _

theorem plain_suffixed {operand : Parser Expr} {form : Expr → Parser (ExprKind Expr)} (r : Rule)
    (h : Plain operand) (hf : ∀ e, Plain (form e)) : Plain (suffixed r operand form) := by
  refine h.seq fun left => plain_ifEat ?_ (plain_pure left)
  exact (plain_observe _).seq fun offset => (hf left).seq fun kind => plain_node _ _

theorem plain_applySigns (operand : Expr) (signs : List (UnaryOperator × Nat)) :
    Plain (applySigns operand signs) := by
  induction signs with
  | nil => exact plain_pure operand
  | cons sign signs ih => exact ih.seq fun _ => plain_node _ _

theorem plain_valueExpr (h : Plain single) : Plain (valueExpr single) := by
  have hbody (mode : Option ValidationMode) (typeName : Option QName) (offset : Nat) : Plain (do
      return ← node (.validate mode typeName (← bracedExpr single)) offset) :=
    (plain_bracedExpr h).seq fun _ => plain_node _ _
  refine plain_ifEat ?_ (plain_ifEat ?_ (plain_ifEat ?_ (plain_ifPeek (plain_extensionExpr h)
    (plain_pathExpr h))))
  · refine (plain_observe _).seq fun offset => (plain_observe _).seq fun lexical => ?_
    exact (plain_elementName lexical offset).seq fun typeName => hbody _ _ offset
  · refine (plain_observe _).seq fun offset => (plain_observe _).seq fun name => ?_
    have hmode : Plain (validationMode name offset) :=
      plain_ite (plain_pure _) (plain_ite (plain_pure _) (plain_fatal _ _ _))
    exact hmode.seq fun mode => hbody _ _ offset
  · exact (plain_observe _).seq fun offset => hbody _ _ offset

theorem plain_unaryExpr (h : Plain single) : Plain (unaryExpr single) := by
  have hsign : Plain sign? := by
    refine (plain_eatFirst _).seq ?_
    rintro (_ | op)
    · exact plain_pure none
    · exact (plain_observe _).seq fun _ => plain_pure _
  exact (plain_many hsign).seq fun signs => (plain_valueExpr h).seq fun e => plain_applySigns e signs

theorem plain_instanceOfExpr (h : Plain single) : Plain (instanceOfExpr single) := by
  refine plain_suffixed _ (plain_suffixed _ (plain_suffixed _ (plain_suffixed _ (plain_unaryExpr h)
    fun e => ?_) fun e => ?_) fun e => ?_) fun e => ?_
  · exact plain_singleType.seq fun _ => plain_pure _
  · exact plain_singleType.seq fun _ => plain_pure _
  · exact (plain_sequenceType _).seq fun _ => plain_pure _
  · exact (plain_sequenceType _).seq fun _ => plain_pure _

theorem plain_unionExpr (h : Plain single) : Plain (unionExpr single) :=
  plain_chain _ (plain_chain _ (plain_instanceOfExpr h))

theorem plain_additiveExpr (h : Plain single) : Plain (additiveExpr single) :=
  plain_chain _ (plain_chain _ (plain_unionExpr h))

theorem plain_ftContainsExpr (h : Plain single) : Plain (ftContainsExpr single) := by
  have hrange : Plain (rangeExpr single) :=
    plain_suffixed _ (plain_additiveExpr h) fun _ => (plain_additiveExpr h).seq fun _ => plain_pure _
  refine hrange.seq fun left => (plain_eatFirst _).seq fun _ => plain_ite (plain_pure left) ?_
  refine (plain_observe _).seq fun offset => (plain_ftSelection h (plain_additiveExpr h)).seq fun selection => ?_
  exact (plain_whenEats (plain_unionExpr h)).seq fun _ => plain_node _ _

theorem plain_orExpr (h : Plain single) : Plain (orExpr single) := by
  refine plain_chain _ (plain_chain _ ((plain_ftContainsExpr h).seq fun left => (plain_eatFirst _).seq ?_))
  rintro (_ | op)
  · exact plain_pure left
  · refine (plain_observe _).seq fun offset => (plain_ftContainsExpr h).seq fun right => ?_
    exact plain_node _ _

/-! ### Single expressions -/

theorem plain_errorTest : Plain errorTest := by
  refine (plain_nameTest none).seq ?_
  rintro (_ | test)
  · exact plain_unexpected _
  · exact plain_pure test

theorem plain_catchTests : Plain catchTests := by
  refine plain_ifEat ?_ (plain_ifEat ?_ (plain_pure none))
  · refine plain_errorTest.seq fun test => (plain_many (plain_whenEats plain_variableName)).seq fun names => ?_
    exact (plain_expect _).seq fun _ => plain_pure _
  · exact (plain_separatedBy plain_errorTest).seq fun _ => plain_pure _

theorem plain_quantified (h : Plain single) (quantifier : Quantifier) (offset : Nat) :
    Plain (quantified single quantifier offset) := by
  have hbinding : Plain (quantifiedBinding single) :=
    plain_typedVariable.seq fun ⟨_, _⟩ => (plain_expect _).seq fun _ => h.seq fun _ => plain_pure _
  refine (plain_separatedBy hbinding).seq fun bindings => (plain_expect _).seq fun _ => ?_
  exact h.seq fun _ => plain_node _ _

theorem plain_conditional (h : Plain single) (offset : Nat) : Plain (conditional single offset) := by
  refine (plain_parenthesizedExpr h).seq fun condition => (plain_expect _).seq fun _ => h.seq fun _ => ?_
  exact (plain_expect _).seq fun _ => h.seq fun _ => plain_node _ _

theorem plain_switchCase (h : Plain single) : Plain (switchCase single) := by
  refine (plain_many (plain_whenEats h)).seq ?_
  rintro (_ | ⟨operand, operands⟩)
  · exact plain_pure none
  · exact (plain_expect _).seq fun _ => h.seq fun _ => plain_pure _

theorem plain_switchExpr (h : Plain single) (offset : Nat) : Plain (switchExpr single offset) := by
  refine (plain_parenthesizedExpr h).seq fun operand => (plain_many (plain_switchCase h)).seq fun cases => ?_
  have hend : Plain (do
      expect Terminal.defaultReturn
      let default ← single
      node (.switch operand cases default) offset) :=
    (plain_expect _).seq fun _ => h.seq fun _ => plain_node _ _
  exact plain_ite ((plain_unexpected _).seq fun _ => hend) hend

theorem plain_typeswitchCase (h : Plain single) : Plain (typeswitchCase single) := by
  have hvariable : Plain caseVariable := by
    refine plain_ifPeek (plain_variableName.seq fun name => ?_) (plain_pure none)
    exact (plain_expect _).seq fun _ => plain_pure _
  refine plain_whenEats (hvariable.seq fun name => (plain_separatedBy (plain_sequenceType _)).seq fun types => ?_)
  exact (plain_expect _).seq fun _ => h.seq fun _ => plain_pure _

theorem plain_typeswitchExpr (h : Plain single) (offset : Nat) : Plain (typeswitchExpr single offset) := by
  have hvariable : Plain defaultVariable := by
    refine plain_ifEat (plain_variableName.seq fun name => ?_) ((plain_expect _).seq fun _ => plain_pure none)
    exact (plain_expect _).seq fun _ => plain_pure _
  refine (plain_parenthesizedExpr h).seq fun operand => (plain_many (plain_typeswitchCase h)).seq fun cases => ?_
  have hend : Plain (do
      let name ← defaultVariable
      let default ← single
      node (.typeswitch operand cases name default) offset) :=
    hvariable.seq fun _ => h.seq fun _ => plain_node _ _
  exact plain_ite ((plain_unexpected _).seq fun _ => hend) hend

theorem plain_catchClause (h : Plain single) : Plain (catchClause single) := by
  refine plain_catchTests.seq ?_
  rintro (_ | ⟨tests, names⟩)
  · exact plain_pure none
  · exact (plain_enclosedExpr h).seq fun _ => plain_pure _

theorem plain_tryCatch (h : Plain single) (offset : Nat) : Plain (tryCatch single offset) := by
  refine (plain_enclosedExpr h).seq fun body => (plain_many (plain_catchClause h)).seq fun catches => ?_
  exact plain_ite ((plain_unexpected _).seq fun _ => plain_node _ _) (plain_node _ _)

theorem plain_singleOf (h : Plain single) : Plain (singleOf single) := by
  have hword {p : Nat → Parser Expr} (hp : ∀ offset, Plain (p offset)) : Plain (do return ← p (← start)) :=
    (plain_observe _).seq hp
  refine (plain_flwor h).seq ?_
  rintro (_ | e)
  · refine plain_ifEat (hword fun _ => plain_quantified h _ _) (plain_ifEat (hword fun _ => plain_quantified h _ _)
      (plain_ifEat (hword fun _ => plain_switchExpr h _) (plain_ifEat (hword fun _ => plain_typeswitchExpr h _)
      (plain_ifEat (hword fun _ => plain_conditional h _) (plain_ifEat (hword fun _ => plain_tryCatch h _)
      ((plain_updateExpr h).seq ?_))))))
    rintro (_ | e)
    · refine (plain_scriptingExpr h).seq ?_
      rintro (_ | e)
      · exact plain_orExpr h
      · exact plain_pure e
    · exact plain_pure e
  · exact plain_pure e

/-- The parser of single expressions is composed of plain steps. -/
theorem plain_exprSingle : Plain exprSingle := by
  refine plain_steps singleWithin fun steps => ?_
  induction steps with
  | zero => exact plain_exhausted
  | succ steps ih => exact plain_nested (plain_singleOf ih)

end XQuerySyntax.Parser
