import XQuerySyntax.Grammar.Constructor
import XQuerySyntax.Proofs.Order.Clause
import XQuerySyntax.Proofs.Tree.Markup

/-! Constructors in order. An element stands where its start tag begins, in front of the expressions in
the values of its attributes and in its content. -/

namespace XQuerySyntax.Order

open XQuerySyntax.Parser XQuerySyntax.Grammar
open List (forall_mem_nil)

variable {n b : Nat} {single : Parser Expr} {offset : Nat}

/-! ### Markup -/

theorem stands_dirComment (hb : b ≤ offset) :
    Leads (Matcher.Behind n (offset + 1)) (dirComment offset) (Expr.Stands n b) :=
  (passes_lexeme scanMarkupComment_within).bind fun _ => stands_node hb ⟨List.forall_mem_nil _, forall_mem_nil _, rfl, rfl⟩

theorem stands_dirPi (hb : b ≤ offset) :
    Leads (Matcher.Behind n (offset + 1)) (dirPi offset) (Expr.Stands n b) := by
  have hend (target : String) : Leads (Matcher.Behind n (offset + 1)) (do
      let content ← lexeme (scanDelimited "?>" "processing instruction")
      node (.dirPi target (content.getD "")) offset) (Expr.Stands n b) :=
    (passes_lexeme (scanDelimited_within _ _)).bind fun _ => stands_node hb ⟨List.forall_mem_nil _, forall_mem_nil _, rfl, rfl⟩
  refine (passes_observe _).bind fun target => leads_ite (fun _ => ?_) fun _ => hend target
  exact (passes_record _ _ _).bind fun _ => hend target

theorem passes_namespaceAttribute (qualifier : Option String) (value : List (AttributeValuePart Expr))
    (offset : Nat) (earlier : List NamespaceBinding) :
    Passes (namespaceAttribute qualifier value offset earlier) := by
  refine (still_forIn (fun _ => still_record _ _ _) _).passes.seq fun _ => ?_
  cases qualifier with
  | none =>
    have hend (uri : String) : Passes (do
        checkDefaultNamespace uri offset
        amend (·.bind "" uri)
        return NamespaceBinding.mk none uri) :=
      (passes_checkDefaultNamespace uri offset).seq fun _ => (passes_amend _).seq fun _ => passes_pure _
    exact passes_ite ((passes_record _ _ _).seq fun _ => hend _) (hend _)
  | some q =>
    have hend (uri : String) : Passes (do
        checkBinding q uri offset
        amend (·.bind q uri)
        return NamespaceBinding.mk (some q) uri) :=
      (passes_checkBinding q uri offset).seq fun _ => (passes_amend _).seq fun _ => passes_pure _
    have hbind (uri : String) : Passes (do
        if uri = "" then
          record .emptyNamespaceUri offset
            ("namespace prefix '" ++ q ++ "' cannot be bound to an empty URI")
        checkBinding q uri offset
        amend (·.bind q uri)
        return NamespaceBinding.mk (some q) uri) :=
      passes_ite ((passes_record _ _ _).seq fun _ => hend uri) (hend uri)
    exact passes_ite ((passes_record _ _ _).seq fun _ => hbind _) (hbind _)

/-- Resolving the names of attributes keeps their values. -/
theorem keeps_resolveAttributes (seen : List ExpandedName) (attributes : List RawAttribute)
    (h : ∀ a ∈ attributes, InOrderAll b (a.value.flatMap AttributeValuePart.children)) :
    Keeps n b (resolveAttributes seen attributes) fun resolved => ∀ a ∈ resolved, InOrderAll b a.children := by
  induction attributes generalizing seen with
  | nil => exact keeps_pure (List.forall_mem_nil _)
  | cons a rest ih =>
    obtain ⟨ha, hrest⟩ := List.forall_mem_cons.1 h
    have hend (name : QName) : Keeps n b (do
        return DirAttribute.mk name a.value a.offset :: (← resolveAttributes (name.expanded :: seen) rest))
        fun resolved => ∀ a ∈ resolved, InOrderAll b a.children :=
      (ih _ hrest).bind fun _ hs => keeps_pure (List.forall_mem_cons.2 ⟨ha, hs⟩)
    refine (passes_plainName a.name a.offset).bind fun name => leads_ite (fun _ => ?_) fun _ => hend name
    exact (passes_record _ _ _).bind fun _ => hend name

/-- Without an expression the empty sequence stands at the opening brace. -/
theorem stands_enclosedContent (h : Builds single) :
    Leads (Matcher.Took n b) (enclosedContent single) (Expr.Stands n b) := by
  refine leads_start_bind fun offset ho => leads_ifEatStay (stands_emptySequence ho) ?_
  refine (builds_expr h).bind fun e he => (passes_eat _).bind fun _ => ?_
  refine leads_ite (fun _ => leads_unexpected_bind _) fun _ => leads_pure fun _ hm => ⟨?_, hm⟩
  exact he.mono (Nat.le_succ_of_le ho)

/-- The parts of an attribute value behind a place. -/
abbrev ValueInOrder (b : Nat) (parts : List (AttributeValuePart Expr)) : Prop :=
  InOrderAll b (parts.flatMap AttributeValuePart.children)

theorem keeps_attributeValueStep (h : Builds single) (delimiter : Char) (close : Rule)
    {parts : List (AttributeValuePart Expr)} (hparts : ValueInOrder b parts) :
    Keeps n b (attributeValueStep single delimiter close parts)
      (Sum.elim (ValueInOrder b) (ValueInOrder b)) := by
  refine (passes_lexeme (scanMarkupText_within _)).bind ?_
  rintro (_ | text)
  · refine leads_ifEatStay (keeps_pure hparts) (leads_ifEat (by rfl) ?_ (leads_unexpected _))
    refine Leads.bind (Leads.keeps (stands_enclosedContent h)) fun e => leads_of_and fun he => keeps_pure ?_
    refine List.forall_mem_flatMap.2 (forall_mem_concat (List.forall_mem_flatMap.1 hparts) ?_)
    exact List.forall_mem_singleton.2 he
  · refine keeps_pure ?_
    change InOrderAll b _
    rwa [AttributeValuePart.children_addText]

theorem keeps_attributeValue (h : Builds single) : Keeps n b (attributeValue single) (ValueInOrder b) := by
  have hvalue (delimiter : Char) (close : Rule) :
      Keeps n b (iterate (attributeValueStep single delimiter close) []) (ValueInOrder b) :=
    keeps_iterate (fun _ => keeps_attributeValueStep h delimiter close) (List.forall_mem_nil _)
  exact leads_ifEatStay (hvalue _ _) (leads_ifEatStay (hvalue _ _) (leads_unexpected _))

/-- The attributes of a tag behind a place. -/
abbrev TagInOrder (b : Nat) (tag : TagAttributes) : Prop := ∀ a ∈ tag.raw, ValueInOrder b a.value

theorem keeps_tagAttributeStep (h : Builds single) {tag : TagAttributes} (htag : TagInOrder b tag) :
    Keeps n b (tagAttributeStep single tag) (Sum.elim (TagInOrder b) (TagInOrder b)) := by
  refine (passes_eat _).bind fun _ => leads_ite (fun _ => keeps_pure htag) fun _ => ?_
  refine (passes_observe _).bind fun offset => (passes_observe _).bind fun name => ?_
  refine (keeps_attributeValue h).bind fun value hvalue => leads_ite (fun _ => ?_) fun _ => ?_
  · exact (passes_namespaceAttribute none value offset _).bind fun _ => keeps_pure htag
  refine leads_ite (fun _ => ?_) fun _ => keeps_pure (forall_mem_concat htag hvalue)
  exact (passes_namespaceAttribute _ value offset _).bind fun _ => keeps_pure htag

section

variable {element : Nat → Parser Expr}

/-- Elements stand where they are said to begin. -/
def StandsAt (element : Nat → Parser Expr) : Prop :=
  ∀ n b offset, b ≤ offset → Leads (Matcher.Behind n (offset + 1)) (element offset) (Expr.Stands n b)

theorem keeps_nestedNode (h : StandsAt element) :
    Keeps n b (nestedNode element) fun found => ∀ inner ∈ found, InOrderAll b inner.children := by
  have hsome {p : Parser Expr} (hp : Leads (Matcher.Took n b) p (Expr.Stands n b)) :
      Leads (Matcher.Took n b) (do return some (DirContent.node (← p))) fun found m =>
        (∀ inner ∈ found, InOrderAll b inner.children) ∧ m.Behind n b := by
    refine Leads.bind (Leads.keeps hp) fun e => leads_of_and fun he => keeps_someOf ?_
    exact List.forall_mem_singleton.2 he
  have hstart {p : Nat → Parser Expr} (hp : StandsAt p) :
      Leads (Matcher.Took n b) (do return some (DirContent.node (← p (← start)))) fun found m =>
        (∀ inner ∈ found, InOrderAll b inner.children) ∧ m.Behind n b := by
    refine leads_start_bind fun offset ho => ?_
    refine Leads.bind (Leads.keeps (hp n b offset ho)) fun e => leads_of_and fun he => keeps_someOf ?_
    exact List.forall_mem_singleton.2 he
  refine leads_ifEat (by rfl) (hstart h) (leads_ifEatStay ?_
    (leads_ifEat (by rfl) (hstart fun _ _ _ => stands_dirComment)
    (leads_ifEat (by rfl) (hstart fun _ _ _ => stands_dirPi) keeps_none)))
  exact (passes_lexeme scanLiteralSection_within).bind fun _ => keeps_someOf (List.forall_mem_nil _)

/-- The parts of element content behind a place. -/
abbrev ContentInOrder (b : Nat) (content : List (DirContent Expr)) : Prop :=
  InOrderAll b (content.flatMap DirContent.children)

theorem passes_checkEndTag (opened : LexicalName) : Passes (checkEndTag opened) := by
  refine (passes_observe _).seq fun _ => passes_ite ?_ (passes_pure ())
  exact (passes_observe _).seq fun _ _ _ => leads_fatal _ _ _

theorem ContentInOrder.concat {content : List (DirContent Expr)} {part : DirContent Expr}
    (h : ContentInOrder b content) (hpart : InOrderAll b part.children) :
    ContentInOrder b (content ++ [part]) :=
  List.forall_mem_flatMap.2 (forall_mem_concat (List.forall_mem_flatMap.1 h) hpart)

theorem keeps_elementContentStep (hs : Builds single) (h : StandsAt element) (strip : Bool)
    (opened : LexicalName) {content : List (DirContent Expr)} (hc : ContentInOrder b content) :
    Keeps n b (elementContentStep single element strip opened content)
      (Sum.elim (ContentInOrder b) (ContentInOrder b)) := by
  refine leads_ifEatStay ?_ ((keeps_nestedNode h).bind ?_)
  · exact (passes_checkEndTag opened).bind fun _ => keeps_pure hc
  rintro (_ | inner) hinner
  · refine (passes_lexeme (scanMarkupText_within _)).bind ?_
    rintro (_ | text)
    · refine leads_ifEat (by rfl) ?_ ((passes_observe _).bind fun _ => leads_ite (fun _ => ?_) fun _ =>
        leads_unexpected _)
      · refine Leads.bind (Leads.keeps (stands_enclosedContent hs)) fun e => leads_of_and fun he => keeps_pure ?_
        exact hc.concat (List.forall_mem_singleton.2 he)
      · exact (passes_observe _).bind fun _ => leads_fatal_bind _ _ _
    · refine leads_ite (fun _ => keeps_pure hc) fun _ => keeps_pure ?_
      change InOrderAll b _
      rwa [DirContent.children_addText]
  · exact keeps_pure (hc.concat (hinner inner rfl))

theorem keeps_elementContent (hs : Builds single) (h : StandsAt element) (opened : LexicalName) :
    Keeps n b (elementContent single element opened) (ContentInOrder b) :=
  (passes_consult _).bind fun strip =>
    keeps_iterate (fun _ => keeps_elementContentStep hs h strip opened) (List.forall_mem_nil _)

theorem stands_elementInFrame (hs : Builds single) (h : StandsAt element) (opened : LexicalName)
    (hb : b ≤ offset) :
    Leads (Matcher.Behind n (offset + 1)) (elementInFrame single element opened offset) (Expr.Stands n b) := by
  refine (keeps_iterate (fun _ => keeps_tagAttributeStep hs) (List.forall_mem_nil _)).bind fun tag htag => ?_
  refine (passes_elementName opened offset).bind fun name => ?_
  refine (keeps_resolveAttributes [] tag.raw htag).bind fun attributes hattributes => ?_
  have hvalues := List.forall_mem_flatMap.2 hattributes
  refine leads_ifEatStay (stands_node hb ⟨?_, forall_mem_nil _, rfl, rfl⟩) ((passes_eat _).bind fun _ =>
    leads_ite (fun _ => leads_unexpected_bind _) fun _ => ?_)
  · exact List.forall_mem_append.2 ⟨hvalues, List.forall_mem_nil _⟩
  · refine (keeps_elementContent hs h opened).bind fun content hc => stands_node hb ⟨?_, forall_mem_nil _, rfl, rfl⟩
    exact List.forall_mem_append.2 ⟨hvalues, hc⟩

end

theorem standsAt_dirElement (hs : Builds single) : StandsAt (dirElement single) := by
  have hwithin (steps : Nat) : StandsAt (dirElementWithin single steps) := by
    induction steps with
    | zero => exact fun _ _ _ _ => leads_exhausted
    | succ steps ih =>
      refine fun n b offset hb => (passes_observe _).bind fun opened => leads_nested ?_
      refine (passes_amend _).bind fun _ => Leads.bind (stands_elementInFrame hs ih opened hb) fun e => ?_
      exact (still_amend _).bind fun _ => leads_pure fun _ hm => hm
  exact fun n b offset hb => still_get.bind fun _ => hwithin _ n b offset hb

theorem builds_directConstructor (hs : Builds single) : BuildsOptional (directConstructor single) := by
  refine fun n b => leads_ifEat (by rfl) (leads_start_bind fun offset ho => ?_)
    (leads_ifEat (by rfl) (leads_start_bind fun offset ho => ?_)
    (leads_ifEat (by rfl) (leads_start_bind fun offset ho => ?_) finds_none))
  · exact Leads.some (standsAt_dirElement hs n b offset ho)
  · exact Leads.some (stands_dirComment ho)
  · exact Leads.some (stands_dirPi ho)

/-! ### Computed constructors -/

theorem keeps_computedName (h : Builds single) :
    Keeps n b (computedName single) fun name => InOrderAll b name.children :=
  (builds_bracedExpr h).keeps.bind fun _ he => keeps_pure (List.forall_mem_singleton.2 he)

theorem keeps_literalName : Keeps n b literalName fun name => InOrderAll b name.children :=
  (passes_observe _).bind fun _ => keeps_pure (List.forall_mem_nil _)

theorem begins_computedKind (h : Builds single) : Begins (computedKind single) ExprKind.InOrder := by
  intro n b
  -- Every form ends with its content in braces, which may be left out of some.
  have hcontent (form : Expr → ExprKind Expr) (hform : ∀ {e}, e.InOrder (b + 1) → (form e).InOrder (b + 1)) :
      Leads (Matcher.Behind n (b + 1)) (do return some (form (← enclosedExpr single)))
        (Matcher.Finds n b fun kind m => kind.InOrder (b + 1) ∧ m.Behind n (b + 1)) :=
    (builds_enclosedExpr h).keeps.bind fun e he => finds_some fun _ hm => ⟨hform he, hm⟩
  have hoptional (form : Option Expr → ExprKind Expr)
      (hform : ∀ {e}, InOrderAll (b + 1) e.toList → (form e).InOrder (b + 1)) :
      Leads (Matcher.Behind n (b + 1)) (do return some (form (← optionalExpr single)))
        (Matcher.Finds n b fun kind m => kind.InOrder (b + 1) ∧ m.Behind n (b + 1)) :=
    (builds_optionalExpr h).keeps.bind fun e he => finds_some fun _ hm => ⟨hform he, hm⟩
  have hnamed {name : ComputedName Expr} {es : List Expr} (hname : InOrderAll (b + 1) name.children)
      (hes : InOrderAll (b + 1) es) : InOrderAll (b + 1) (name.children ++ es) :=
    List.forall_mem_append.2 ⟨hname, hes⟩
  refine leads_ifEatPast (by rfl) (hcontent .compDocument fun he => ⟨List.forall_mem_singleton.2 he, forall_mem_nil _, rfl, rfl⟩)
    (leads_ifEatPast (by rfl) ?_ (leads_ifEatPast (by rfl) ?_
    (leads_ifEatPast (by rfl) ?_ (leads_ifEatPast (by rfl) ?_
    (leads_ifEatPast (by rfl) (hcontent .compText fun he => ⟨List.forall_mem_singleton.2 he, forall_mem_nil _, rfl, rfl⟩)
    (leads_ifEatPast (by rfl) (hcontent .compComment fun he => ⟨List.forall_mem_singleton.2 he, forall_mem_nil _, rfl, rfl⟩)
    (leads_ifEatPast (by rfl) ?_ (leads_ifEatPast (by rfl) ?_
    (leads_ifEatPast (by rfl) ?_ (leads_ifEatPast (by rfl) ?_ finds_none))))))))))
  · refine (passes_observe _).bind fun offset => (passes_observe _).bind fun name => ?_
    refine (passes_elementName name offset).bind fun name => hoptional _ fun he => ⟨he, forall_mem_nil _, rfl, rfl⟩
  · exact (keeps_computedName h).bind fun name hname => hoptional _ fun he => ⟨hnamed hname he, forall_mem_nil _, rfl, rfl⟩
  · refine (passes_observe _).bind fun offset => (passes_observe _).bind fun name => ?_
    refine (passes_plainName name offset).bind fun name => hoptional _ fun he => ⟨he, forall_mem_nil _, rfl, rfl⟩
  · exact (keeps_computedName h).bind fun name hname => hoptional _ fun he => ⟨hnamed hname he, forall_mem_nil _, rfl, rfl⟩
  · exact keeps_literalName.bind fun name hname => hoptional _ fun he => ⟨hnamed hname he, forall_mem_nil _, rfl, rfl⟩
  · exact (keeps_computedName h).bind fun name hname => hoptional _ fun he => ⟨hnamed hname he, forall_mem_nil _, rfl, rfl⟩
  · refine keeps_literalName.bind fun name hname => hcontent _ fun he => ⟨?_, forall_mem_nil _, rfl, rfl⟩
    exact hnamed hname (List.forall_mem_singleton.2 he)
  · refine (keeps_computedName h).bind fun name hname => hcontent _ fun he => ⟨?_, forall_mem_nil _, rfl, rfl⟩
    exact hnamed hname (List.forall_mem_singleton.2 he)

theorem builds_computedConstructor (h : Builds single) : BuildsOptional (computedConstructor single) :=
  stands_form (begins_computedKind h)

end XQuerySyntax.Order
