import XQuerySyntax.Grammar.Constructor
import XQuerySyntax.Proofs.Progress.Clause

/-! Constructors come to an end. A round in a start tag, in the value of an attribute or in the content of
an element uses text up, also where the markup is malformed, since there it stops. -/

namespace XQuerySyntax.Progress

open XQuerySyntax.Parser XQuerySyntax.Grammar

variable {n c : Nat} {single : Parser Expr} {element : Nat → Parser Expr}

/-! ### Markup -/

/-- The scanner of text gives no text that is empty. -/
theorem finds_markupText (delimiter : Option Char) : Finds n c (lexeme (scanMarkupText delimiter)) := by
  refine finds_lexeme (scanMarkupText_within delimiter) fun {text value rest} h => ?_
  unfold scanMarkupText at h
  split at h
  · split at h <;> rename_i hlength
    · cases h
    · cases h
      exact hlength
  · cases h
  · cases h

theorem stays_dirComment (offset : Nat) : Stays n c (dirComment offset) :=
  (stays_lexeme scanMarkupComment_within).seq fun _ => stays_node _ _

theorem stays_dirPi (offset : Nat) : Stays n c (dirPi offset) := by
  have hend (target : String) : Stays n c (do
      let content ← lexeme (scanDelimited "?>" "processing instruction")
      node (.dirPi target (content.getD "")) offset) :=
    (stays_lexeme (scanDelimited_within _ _)).seq fun _ => stays_node _ _
  refine (stays_observe _).seq fun target => uses_ite ?_ (hend target)
  exact (stays_record _ _ _).seq fun _ => hend target

theorem stays_namespaceAttribute (qualifier : Option String) (value : List (AttributeValuePart Expr))
    (offset : Nat) (earlier : List NamespaceBinding) :
    Stays n c (namespaceAttribute qualifier value offset earlier) := by
  refine (still_forIn (fun _ => still_record _ _ _) _).stays.seq fun _ => ?_
  cases qualifier with
  | none =>
    have hend (uri : String) : Stays n c (do
        checkDefaultNamespace uri offset
        amend (·.bind "" uri)
        return NamespaceBinding.mk none uri) :=
      (stays_checkDefaultNamespace uri offset).seq fun _ => (stays_amend _).seq fun _ => stays_pure _
    exact uses_ite ((stays_record _ _ _).seq fun _ => hend _) (hend _)
  | some q =>
    have hend (uri : String) : Stays n c (do
        checkBinding q uri offset
        amend (·.bind q uri)
        return NamespaceBinding.mk (some q) uri) :=
      (stays_checkBinding q uri offset).seq fun _ => (stays_amend _).seq fun _ => stays_pure _
    have hbind (uri : String) : Stays n c (do
        if uri = "" then
          record .emptyNamespaceUri offset
            ("namespace prefix '" ++ q ++ "' cannot be bound to an empty URI")
        checkBinding q uri offset
        amend (·.bind q uri)
        return NamespaceBinding.mk (some q) uri) :=
      uses_ite ((stays_record _ _ _).seq fun _ => hend uri) (hend uri)
    exact uses_ite ((stays_record _ _ _).seq fun _ => hbind _) (hbind _)

theorem stays_resolveAttributes (seen : List ExpandedName) (attributes : List RawAttribute) :
    Stays n c (resolveAttributes seen attributes) := by
  induction attributes generalizing seen with
  | nil => exact stays_pure _
  | cons a rest ih =>
    have hend (name : QName) : Stays n c (do
        return DirAttribute.mk name a.value a.offset :: (← resolveAttributes (name.expanded :: seen) rest)) :=
      (ih _).seq fun _ => stays_pure _
    refine (stays_plainName a.name a.offset).seq fun name => uses_ite ?_ (hend name)
    exact (stays_record _ _ _).seq fun _ => hend name

theorem stays_enclosedContent (h : Gains n c single) : Stays n c (enclosedContent single) := by
  refine (stays_observe _).seq fun offset => stays_ifEat (stays_node _ _) ((gains_expr h).stays.seq fun e => ?_)
  refine (stays_eat _).seq fun _ => uses_ite ?_ (stays_pure _)
  exact (stays_unexpected _).seq fun _ => stays_pure _

theorem rounds_attributeValueStep (h : Gains n (c + 1) single) (delimiter : Char) (close : Rule)
    (parts : List (AttributeValuePart Expr)) :
    Rounds n c (attributeValueStep single delimiter close parts) := by
  refine (finds_markupText _).seq ?_ fun text => stays_pure _
  refine (stays_eat _).seq fun _ => uses_ite (uses_pure rfl) (uses_ifEat (by rfl) ?_ (uses_unexpected _))
  exact (stays_enclosedContent h).seq fun _ => stays_pure _

theorem stays_attributeValue (h : Gains n (c + 1) single) : Stays n c (attributeValue single) := by
  have hvalue (delimiter : Char) (close : Rule) :
      Stays n c (iterate (attributeValueStep single delimiter close) []) :=
    stays_iterate (rounds_attributeValueStep h delimiter close) _
  exact stays_ifEat (hvalue _ _) (stays_ifEat (hvalue _ _) (uses_unexpected _))

theorem rounds_tagAttributeStep (h : Gains n c single) (tag : TagAttributes) :
    Rounds n c (tagAttributeStep single tag) := by
  have hattribute : Stays n (c + 1) (do
      let offset ← start
      let name ← capturedQualifiedName 0
      let value ← attributeValue single
      if name.qualifier = none ∧ name.localPart = "xmlns" then
        let binding ← namespaceAttribute none value offset tag.namespaces
        return .inl { tag with namespaces := tag.namespaces ++ [binding] }
      if name.qualifier = some "xmlns" then
        let binding ← namespaceAttribute (some name.localPart) value offset tag.namespaces
        return .inl { tag with namespaces := tag.namespaces ++ [binding] }
      return (.inl { tag with raw := tag.raw ++ [⟨name, value, offset⟩] } : TagAttributes ⊕ TagAttributes)) := by
    refine (stays_observe _).seq fun offset => (stays_observe _).seq fun name => ?_
    refine (stays_attributeValue h.up.up).seq fun value => uses_ite ?_ (uses_ite ?_ (stays_pure _))
    · exact (stays_namespaceAttribute none value offset _).seq fun _ => stays_pure _
    · exact (stays_namespaceAttribute _ value offset _).seq fun _ => stays_pure _
  refine fun b hb => Contract.bind (uses_eat (by rfl) b hb) ?_
  rintro (_ | _)
  · exact rounds_end _ b hb
  · exact hattribute.uses hb

/-! ### Elements -/

theorem finds_nestedNode (h : ∀ offset, Stays n (c + 1) (element offset)) : Finds n c (nestedNode element) := by
  have hsome {p : Nat → Parser Expr} (hp : ∀ offset, Stays n (c + 1) (p offset)) :
      Stays n (c + 1) (do return some (DirContent.node (← p (← start)))) :=
    (stays_observe _).seq fun offset => (hp offset).seq fun _ => stays_pure _
  refine uses_ifEat (by rfl) (hsome h) (uses_ifEat (by rfl) ?_ (uses_ifEat (by rfl) (hsome stays_dirComment)
    (uses_ifEat (by rfl) (hsome stays_dirPi) finds_none)))
  exact (stays_lexeme scanLiteralSection_within).seq fun _ => stays_pure _

theorem stays_checkEndTag (opened : LexicalName) : Stays n c (checkEndTag opened) := by
  refine (stays_observe _).seq fun closed => uses_ite ?_ (stays_pure ())
  exact (stays_observe _).seq fun _ => uses_fatal (by decide) _ _

theorem rounds_elementContentStep (h : Gains n (c + 1) single) (hin : ∀ offset, Stays n (c + 1) (element offset))
    (strip : Bool) (opened : LexicalName) (content : List (DirContent Expr)) :
    Rounds n c (elementContentStep single element strip opened content) := by
  refine uses_ifEat (by rfl) ((stays_checkEndTag opened).seq fun _ => stays_pure _) ?_
  refine (finds_nestedNode hin).seq ?_ fun inner => stays_pure _
  refine (finds_markupText none).seq ?_ fun text => uses_ite (stays_pure _) (stays_pure _)
  refine uses_ifEat (by rfl) ((stays_enclosedContent h).seq fun _ => stays_pure _) ?_
  refine (stays_observe _).seq fun ended => uses_ite ?_ (uses_unexpected _)
  exact (stays_observe _).seq fun _ => (stays_fatal (by decide) _ _).seq fun _ => uses_unexpected _

theorem stays_elementContent (h : Gains n c single) (hin : ∀ offset, Stays n (c + 1) (element offset))
    (opened : LexicalName) : Stays n c (elementContent single element opened) :=
  (stays_consult _).seq fun strip => stays_iterate (rounds_elementContentStep h.up hin strip opened) _

theorem stays_elementInFrame (h : Gains n c single) (hin : ∀ offset, Stays n (c + 1) (element offset))
    (opened : LexicalName) (offset : Nat) : Stays n c (elementInFrame single element opened offset) := by
  refine (stays_iterate (rounds_tagAttributeStep h) _).seq fun tag => ?_
  refine (stays_elementName opened offset).seq fun name => (stays_resolveAttributes [] tag.raw).seq fun attributes => ?_
  refine stays_ifEat (stays_node _ _) ?_
  have hend : Stays n c (do
      let content ← elementContent single element opened
      node (.dirElement ⟨name, attributes, tag.namespaces, content, false⟩) offset) :=
    (stays_elementContent h hin opened).seq fun content => stays_node _ _
  exact (stays_eat _).seq fun _ => uses_ite ((stays_unexpected _).seq fun _ => hend) hend

theorem stays_dirElementWithin {steps : Nat} (h : Gains n c single) (hsteps : n < c + steps) (offset : Nat) :
    Stays n c (dirElementWithin single steps offset) := by
  induction steps generalizing c offset with
  | zero => exact uses_of_lt hsteps
  | succ steps ih =>
    have hinner (offset : Nat) := ih h.up (by omega : n < c + 1 + steps) offset
    refine (stays_observe _).seq fun opened => uses_nested ((stays_amend _).seq fun _ => ?_)
    refine (stays_elementInFrame h hinner opened offset).seq fun e => ?_
    exact (stays_amend _).seq fun _ => stays_pure _

theorem stays_dirElement (h : Gains n c single) (offset : Nat) : Stays n c (dirElement single offset) :=
  uses_steps fun _ hsteps => stays_dirElementWithin h hsteps offset

theorem finds_directConstructor (h : Gains n (c + 1) single) : Finds n c (directConstructor single) := by
  have hsome {p : Nat → Parser Expr} (hp : ∀ offset, Stays n (c + 1) (p offset)) :
      Stays n (c + 1) (do return some (← p (← start))) :=
    (stays_observe _).seq fun offset => (hp offset).seq fun _ => stays_pure _
  exact uses_ifEat (by rfl) (hsome (stays_dirElement h)) (uses_ifEat (by rfl) (hsome stays_dirComment)
    (uses_ifEat (by rfl) (hsome stays_dirPi) finds_none))

/-! ### Computed constructors -/

theorem stays_computedName (h : Gains n c single) : Stays n c (computedName single) :=
  (stays_bracedExpr h).seq fun _ => stays_pure _

theorem stays_literalName : Stays n c literalName := (stays_observe _).seq fun _ => stays_pure _

theorem finds_computedKind (h : Gains n (c + 1) single) : Finds n c (computedKind single) := by
  have henclosed (form : Expr → ExprKind Expr) : Stays n (c + 1) (do return some (form (← enclosedExpr single))) :=
    (stays_enclosedExpr h).seq fun _ => stays_pure _
  have hoptional (form : Option Expr → ExprKind Expr) :
      Stays n (c + 1) (do return some (form (← optionalExpr single))) :=
    (stays_optionalExpr h).seq fun _ => stays_pure _
  refine uses_ifEat (by rfl) (henclosed _) (uses_ifEat (by rfl) ?_ (uses_ifEat (by rfl) ?_
    (uses_ifEat (by rfl) ?_ (uses_ifEat (by rfl) ?_ (uses_ifEat (by rfl) (henclosed _)
    (uses_ifEat (by rfl) (henclosed _) (uses_ifEat (by rfl) ?_ (uses_ifEat (by rfl) ?_
    (uses_ifEat (by rfl) ?_ (uses_ifEat (by rfl) ?_ finds_none))))))))))
  · refine (stays_observe _).seq fun offset => (stays_observe _).seq fun name => ?_
    exact (stays_elementName name offset).seq fun name => hoptional (.compElement (.literal name))
  · exact (stays_computedName h).seq fun name => hoptional (.compElement name)
  · refine (stays_observe _).seq fun offset => (stays_observe _).seq fun name => ?_
    exact (stays_plainName name offset).seq fun name => hoptional (.compAttribute (.literal name))
  · exact (stays_computedName h).seq fun name => hoptional (.compAttribute name)
  · exact stays_literalName.seq fun target => hoptional (.compPi target)
  · exact (stays_computedName h).seq fun target => hoptional (.compPi target)
  · exact stays_literalName.seq fun name => henclosed (.compNamespace name)
  · exact (stays_computedName h).seq fun name => henclosed (.compNamespace name)

theorem finds_computedConstructor (h : Gains n (c + 1) single) : Finds n c (computedConstructor single) :=
  finds_form (finds_computedKind h)

end XQuerySyntax.Progress
