import XQuerySyntax.Grammar.Constructor
import XQuerySyntax.Proofs.Names.Clause
import XQuerySyntax.Proofs.Tree.Markup

/-! Accounts of constructors. The names of a start tag are looked up behind its attribute values. An
attribute that binds a namespace keeps its literal text alone: expressions in its value are dropped from
the tree, and this is recorded. -/

namespace XQuerySyntax

/-- What the value of an attribute holds. -/
abbrev Stock.value : List (AttributeValuePart Expr) → Stock :=
  both (fun _ => []) fun parts => parts.flatMap AttributeValuePart.children

/-- What an attribute holds before its name is looked up. -/
abbrev Stock.raw : RawAttribute → Stock :=
  both (fun _ => []) fun a => a.value.flatMap AttributeValuePart.children

/-- What the attributes of a tag hold before their names are looked up. -/
abbrev Stock.tag (tag : Grammar.TagAttributes) : Stock := all raw tag.raw

/-- What a computed name holds. -/
abbrev Stock.computed : ComputedName Expr → Stock := both ComputedName.unbound ComputedName.children

/-- What element content holds. -/
abbrev Stock.content : List (DirContent Expr) → Stock :=
  both (fun _ => []) fun content => content.flatMap DirContent.children

/-- A value without enclosed expressions has no expressions. -/
theorem AttributeValuePart.children_of_enclosedCount {parts : List (AttributeValuePart Expr)}
    (h : enclosedCount parts = 0) : parts.flatMap children = [] := by
  refine List.flatMap_eq_nil_iff.2 fun p hp => ?_
  have hp := List.countP_eq_zero.1 h p hp
  cases p with
  | text => rfl
  | enclosed => exact absurd rfl hp

namespace Grammar

open XQuerySyntax.Parser

attribute [local simp] ExprKind.unbound ExprKind.children

variable {single : Parser Expr} {t : Stock} {offset : Nat}

/-! ### Markup -/

theorem accounts_dirComment (offset : Nat) : Builds (dirComment offset) :=
  fun _ => (quiet_scan _).bind fun _ => carries_node (by simp) (by simp)

theorem accounts_dirPi (offset : Nat) : Builds (dirPi offset) := by
  have hend (target : String) : Builds (do
      let content ← lexeme (scanDelimited "?>" "processing instruction")
      node (.dirPi target (content.getD "")) offset) := fun _ =>
    (quiet_scan _).bind fun _ => carries_node (by simp) (by simp)
  refine fun t => (quiet_observe _).bind fun target => carries_ite (fun _ => ?_) fun _ => hend target t
  exact (quiet_record (by decide) _ _).bind fun _ => hend target t

/-- Once an expression has been dropped, it need not be held any longer. -/
theorem carries_spoil (u : Stock) (offset : Nat) (message : String) :
    Carries (t ++ u) (record .namespaceAttributeNotLiteral offset message) fun _ => t := by
  intro s hs
  have hcode : (Diagnostic.error .namespaceAttributeNotLiteral offset message).code ≠ .unknownPrefix := nofun
  refine (hs.note hcode).drop ?_
  exact ⟨_, List.mem_append_right _ (List.mem_singleton_self _), rfl⟩

/-- The value of an attribute that binds a namespace goes out of hand: there is nothing in it, or it is
recorded that something is dropped. -/
theorem carries_namespaceAttribute (qualifier : Option String) (value : List (AttributeValuePart Expr))
    (offset : Nat) (earlier : List NamespaceBinding) :
    Carries (t ++ .value value) (namespaceAttribute qualifier value offset earlier) fun _ => t := by
  have hdrop (xs : List Nat) (hx : xs = [] → value.flatMap AttributeValuePart.children = []) :
      Carries (t ++ .value value) (forIn xs PUnit.unit fun _ _ => do
        record .namespaceAttributeNotLiteral offset
          "a namespace declaration attribute must have a literal value"
        return ForInStep.yield PUnit.unit) fun _ => t := by
    cases xs with
    | nil => exact carries_pure (by simp) (by simp [hx])
    | cons x xs =>
      rw [List.forIn_cons, bind_assoc]
      refine Contract.bind (carries_spoil _ offset _) fun _ => ?_
      exact quiet_forIn (fun _ => quiet_record (by decide) _ _) xs t
  refine Contract.bind (hdrop _ fun hnone => ?_) fun _ => ?_
  · exact AttributeValuePart.children_of_enclosedCount (List.range_eq_nil.1 hnone)
  cases qualifier with
  | none =>
    have hend (uri : String) : Quiet (do
        checkDefaultNamespace uri offset
        amend (·.bind "" uri)
        return NamespaceBinding.mk none uri) :=
      (quiet_checkDefaultNamespace uri offset).seq fun _ => (quiet_amend _).seq fun _ => quiet_pure _
    exact carries_ite (fun _ => (quiet_record (by decide) _ _).bind fun _ => hend _ t) fun _ => hend _ t
  | some q =>
    have hend (uri : String) : Quiet (do
        if uri = "" then
          record .emptyNamespaceUri offset
            ("namespace prefix '" ++ q ++ "' cannot be bound to an empty URI")
        checkBinding q uri offset
        amend (·.bind q uri)
        return NamespaceBinding.mk (some q) uri) := by
      have hcheck : Quiet (do
          checkBinding q uri offset
          amend (·.bind q uri)
          return NamespaceBinding.mk (some q) uri) :=
        (quiet_checkBinding q uri offset).seq fun _ => (quiet_amend _).seq fun _ => quiet_pure _
      exact fun t => carries_ite (fun _ => (quiet_record (by decide) _ _).bind fun _ => hcheck t)
        fun _ => hcheck t
    exact carries_ite (fun _ => (quiet_record (by decide) _ _).bind fun _ => hend _ t) fun _ => hend _ t

theorem carries_resolveAttributes (seen : List ExpandedName) (attributes : List RawAttribute) :
    Carries (t ++ .all .raw attributes) (resolveAttributes seen attributes) fun as =>
      t ++ .all (.both DirAttribute.unbound DirAttribute.children) as := by
  induction attributes generalizing t seen with
  | nil => exact carries_pure (by simp) (by simp)
  | cons a rest ih =>
    refine (accounts_plainName a.name a.offset).bind fun name => ?_
    have hend : Carries (t ++ .all .raw (a :: rest) ++ .naming QName.unbound name) (do
        return DirAttribute.mk name a.value a.offset :: (← resolveAttributes (name.expanded :: seen) rest))
        fun as => t ++ .all (.both DirAttribute.unbound DirAttribute.children) as := by
      let a' : DirAttribute Expr := ⟨name, a.value, a.offset⟩
      have hrest := ih (t := t ++ .both DirAttribute.unbound DirAttribute.children a') (name.expanded :: seen)
      refine Carries.of_eq (Contract.bind hrest fun as => ?_) ?_ ?_
      · exact carries_pure (by simp [a']) (by simp [a'])
      · simp [a', DirAttribute.unbound]
      · simp [a', DirAttribute.children]
    exact carries_ite (fun _ => (quiet_record (by decide) _ _).bind fun _ => hend) fun _ => hend

theorem accounts_enclosedContent (h : Builds single) : Builds (enclosedContent single) := by
  refine fun t => (quiet_observe _).bind fun offset => carries_ifEat (accounts_emptySequence offset t) ?_
  refine (accounts_expr h).bind fun e => (quiet_eat _).bind fun _ => ?_
  exact carries_ite (fun _ => carries_unexpected_bind _) fun _ => carries_pure rfl rfl

theorem accounts_attributeValue (h : Builds single) : Accounts (attributeValue single) .value := by
  have hstep (delimiter : Char) (close : Rule) (t : Stock) (parts : List (AttributeValuePart Expr)) :
      Carries (t ++ .value parts) (attributeValueStep single delimiter close parts) fun next =>
        t ++ Sum.elim .value .value next := by
    refine (quiet_scan _).bind ?_
    rintro (_ | text)
    · refine carries_ifEat (fun _ hs => hs) (carries_ifEat ?_ (carries_unexpected _))
      refine (accounts_enclosedContent h).bind fun e => carries_pure ?_ ?_
      · simp
      · simp [AttributeValuePart.children]
    · refine carries_pure ?_ ?_
      · simp
      · simp [AttributeValuePart.children_addText]
  refine fun t => carries_ifEat (accounts_iterate (hstep _ _) ?_ t)
    (carries_ifEat (accounts_iterate (hstep _ _) ?_ t) (carries_unexpected _)) <;> rfl

theorem carries_tagAttributeStep (h : Builds single) (t : Stock) (tag : TagAttributes) :
    Carries (t ++ .tag tag) (tagAttributeStep single tag) fun next =>
      t ++ Sum.elim .tag .tag next := by
  refine (quiet_eat _).bind fun _ => carries_ite (fun _ _ hs => hs) fun _ => ?_
  refine (quiet_observe _).bind fun offset => (quiet_observe _).bind fun name => ?_
  refine (accounts_attributeValue h).bind fun value => carries_ite (fun _ => ?_) fun _ => ?_
  · exact Contract.bind (carries_namespaceAttribute _ _ _ _) fun _ => carries_pure rfl rfl
  · refine carries_ite (fun _ => ?_) fun _ => carries_pure ?_ ?_
    · exact Contract.bind (carries_namespaceAttribute _ _ _ _) fun _ => carries_pure rfl rfl
    · simp
    · simp

section

variable {element : Nat → Parser Expr}

theorem accounts_nestedNode (h : ∀ offset, Builds (element offset)) :
    Accounts (nestedNode element) (.maybe (.both (fun _ => []) DirContent.children)) := by
  have hnode {p : Parser Expr} (hp : Builds p) :
      Accounts (do return some (DirContent.node (← p)))
        (.maybe (.both (fun _ => []) DirContent.children)) :=
    fun t => hp.bind fun e => carries_pure rfl rfl
  refine fun t => carries_ifEat ?_ (carries_ifEat ?_ (carries_ifEat ?_ (carries_ifEat ?_ (accounts_none t))))
  · exact (quiet_observe _).bind fun offset => hnode (h offset) t
  · exact (quiet_scan _).bind fun _ => carries_pure (by simp) (by simp [DirContent.children])
  · exact (quiet_observe _).bind fun offset => hnode (accounts_dirComment offset) t
  · exact (quiet_observe _).bind fun offset => hnode (accounts_dirPi offset) t

theorem quiet_checkEndTag (opened : LexicalName) : Quiet (checkEndTag opened) := by
  refine fun t => (quiet_observe _).bind fun _ => carries_ite (fun _ => ?_) fun _ => quiet_pure _ t
  exact (quiet_observe _).bind fun _ => carries_fatal _ _ _

theorem carries_elementContentStep (hs : Builds single) (h : ∀ offset, Builds (element offset)) (strip : Bool)
    (opened : LexicalName) (t : Stock) (content : List (DirContent Expr)) :
    Carries (t ++ .content content) (elementContentStep single element strip opened content) fun next =>
      t ++ Sum.elim .content .content next := by
  refine carries_ifEat ((quiet_checkEndTag opened).bind fun _ _ hs => hs) ((accounts_nestedNode h).bind ?_)
  rintro (_ | inner)
  · rw [Stock.maybe_none, Stock.append_empty]
    refine (quiet_scan _).bind ?_
    rintro (_ | text)
    · refine carries_ifEat ?_ ((quiet_observe _).bind fun _ => ?_)
      · refine (accounts_enclosedContent hs).bind fun e => carries_pure ?_ ?_
        · simp
        · simp [DirContent.children]
      · refine carries_ite (fun _ => ?_) fun _ => carries_unexpected _
        exact (quiet_observe _).bind fun _ => carries_fatal_bind _ _ _
    · refine carries_ite (fun _ _ hs => hs) fun _ => carries_pure ?_ ?_
      · simp
      · simp [DirContent.children_addText]
  · exact carries_pure (by simp) (by simp)

theorem accounts_elementContent (hs : Builds single) (h : ∀ offset, Builds (element offset))
    (opened : LexicalName) : Accounts (elementContent single element opened) .content :=
  fun t => (quiet_consult _).bind fun strip =>
    accounts_iterate (carries_elementContentStep hs h strip opened) rfl t

theorem accounts_elementInFrame (hs : Builds single) (h : ∀ offset, Builds (element offset))
    (opened : LexicalName) (offset : Nat) : Builds (elementInFrame single element opened offset) := by
  refine fun t => (accounts_iterate (f := .tag) (carries_tagAttributeStep hs) rfl).bind fun tag => ?_
  refine (accounts_elementName opened offset).bind fun name => ?_
  -- The names of the attributes come behind that of the element, whatever their values hold.
  have hattributes := carries_resolveAttributes (t := t ++ .naming QName.unbound name) [] tag.raw
  refine Carries.of_eq (Contract.bind hattributes fun attributes => ?_) ?_ ?_
  · refine carries_ifEat (carries_node ?_ ?_) ((quiet_eat _).bind fun _ => ?_)
    · simp [DirElement.unbound]
    · simp [DirElement.children]
    · refine carries_ite (fun _ => carries_unexpected_bind _) fun _ => ?_
      refine (accounts_elementContent hs h opened).bind fun content => carries_node ?_ ?_
      · simp [DirElement.unbound]
      · simp [DirElement.children]
  · simp
  · simp

end

theorem accounts_dirElementWithin (h : Builds single) (n offset : Nat) :
    Builds (dirElementWithin single n offset) := by
  induction n generalizing offset with
  | zero => exact fun _ => carries_exhausted
  | succ n ih =>
    refine fun t => (quiet_observe _).bind fun opened => carries_nested ?_
    refine (quiet_amend _).bind fun _ => (accounts_elementInFrame h ih opened offset).bind fun e => ?_
    exact (quiet_amend _).bind fun _ => carries_pure rfl rfl

theorem accounts_dirElement (h : Builds single) (offset : Nat) : Builds (dirElement single offset) :=
  fun t => quiet_get.bind fun _ => accounts_dirElementWithin h _ offset t

theorem accounts_directConstructor (h : Builds single) : BuildsOptional (directConstructor single) := by
  refine fun t => carries_ifEat ?_ (carries_ifEat ?_ (carries_ifEat ?_ (accounts_none t)))
  · exact (quiet_observe _).bind fun offset => (accounts_dirElement h offset).some t
  · exact (quiet_observe _).bind fun offset => (accounts_dirComment offset).some t
  · exact (quiet_observe _).bind fun offset => (accounts_dirPi offset).some t

/-! ### Computed constructors -/

theorem accounts_computedName (h : Builds single) : Accounts (computedName single) Stock.computed :=
  fun _ => (accounts_bracedExpr h).bind fun _ => carries_pure rfl rfl

theorem accounts_literalName : Accounts literalName Stock.computed := by
  refine fun t => (quiet_observe _).bind fun _ => carries_pure ?_ ?_
  · simp [ComputedName.unbound, QName.unbound]
  · simp [ComputedName.children]

theorem accounts_computedKind (h : Builds single) : Accounts (computedKind single) (.maybe .form) := by
  -- Every form ends with its content in braces, which may be left out of some.
  have hcontent (t : Stock) {form : Expr → ExprKind Expr} (own : List String) (named : List Expr)
      (hn : ∀ e, (form e).unbound = own) (he : ∀ e, (form e).children = named ++ [e]) :
      Carries (t ++ ⟨own, named⟩) (do return some (form (← enclosedExpr single))) fun found =>
        t ++ .maybe .form found := by
    refine (accounts_enclosedExpr h).bind fun e => carries_pure ?_ ?_
    · simp [-ExprKind.unbound, hn]
    · simp [-ExprKind.children, he]
  have hoptional (t : Stock) {form : Option Expr → ExprKind Expr} (name : ComputedName Expr)
      (hn : ∀ e, (form e).unbound = name.unbound)
      (he : ∀ e, (form e).children = name.children ++ e.toList) :
      Carries (t ++ Stock.computed name) (do return some (form (← optionalExpr single))) fun found =>
        t ++ .maybe .form found := by
    refine (accounts_optionalExpr h).bind fun e => carries_pure ?_ ?_
    · simp [-ExprKind.unbound, hn]
    · cases e <;> simp [-ExprKind.children, he]
  have hplain {form : Expr → ExprKind Expr} (hn : ∀ e, (form e).unbound = [])
      (he : ∀ e, (form e).children = [e]) :
      Accounts (do return some (form (← enclosedExpr single))) (.maybe .form) :=
    fun t => (hcontent t [] [] hn he).of_eq (by simp) (by simp)
  refine fun t => carries_ifEat (hplain (fun _ => rfl) (fun _ => rfl) t) (carries_ifEat ?_ (carries_ifEat ?_
    (carries_ifEat ?_ (carries_ifEat ?_ (carries_ifEat (hplain (fun _ => rfl) (fun _ => rfl) t)
    (carries_ifEat (hplain (fun _ => rfl) (fun _ => rfl) t) (carries_ifEat ?_ (carries_ifEat ?_
    (carries_ifEat ?_ (carries_ifEat ?_ (accounts_none t)))))))))))
  · refine (quiet_observe _).bind fun offset => (quiet_observe _).bind fun name => ?_
    refine (accounts_elementName name offset).bind fun name => ?_
    exact hoptional t (.literal name) (fun _ => rfl) fun _ => rfl
  · exact (accounts_computedName h).bind fun name => hoptional t name (fun _ => rfl) fun _ => rfl
  · refine (quiet_observe _).bind fun offset => (quiet_observe _).bind fun name => ?_
    refine (accounts_plainName name offset).bind fun name => ?_
    exact hoptional t (.literal name) (fun _ => rfl) fun _ => rfl
  · exact (accounts_computedName h).bind fun name => hoptional t name (fun _ => rfl) fun _ => rfl
  · exact accounts_literalName.bind fun name => hoptional t name (fun _ => rfl) fun _ => rfl
  · exact (accounts_computedName h).bind fun name => hoptional t name (fun _ => rfl) fun _ => rfl
  · exact accounts_literalName.bind fun name => hcontent t _ _ (fun _ => rfl) fun _ => rfl
  · exact (accounts_computedName h).bind fun name => hcontent t _ _ (fun _ => rfl) fun _ => rfl

theorem accounts_computedConstructor (h : Builds single) :
    BuildsOptional (computedConstructor single) := by
  refine fun t => (quiet_observe _).bind fun offset => (accounts_computedKind h).bind ?_
  rintro (_ | kind)
  · exact carries_pure rfl rfl
  · exact carries_someNode rfl rfl

end Grammar

end XQuerySyntax
