import XQuerySyntax.Grammar.Constructor
import XQuerySyntax.Proofs.Tree.Clause

/-! The trees of constructors. Text between markup is never empty and is joined to text before it, so no
two texts stand next to each other. The namespaces of a start tag are bound in a frame of their own:
inside it the context changes, behind it the context is as it was. -/

namespace XQuerySyntax

variable {o : Origin}

/-! ### Joined text -/

section

variable {π : Type} {text? : π → Option String} {parts : List π} {p q : π} {text last : String}

theorem Merged.nil : Merged text? ([] : List π) := ⟨List.forall_mem_nil _, .nil⟩

theorem merged_concat : Merged text? (parts ++ [p]) ↔
    Merged text? parts ∧ text? p ≠ some "" ∧
      ∀ q ∈ parts.getLast?, (text? q).isNone ∨ (text? p).isNone := by
  constructor
  · rintro ⟨hfilled, hapart⟩
    obtain ⟨hchain, -, hlast⟩ := List.isChain_append.1 hapart
    obtain ⟨hparts, hp⟩ := List.forall_mem_append.1 hfilled
    exact ⟨⟨hparts, hchain⟩, hp p List.mem_cons_self, fun q hq => hlast q hq p rfl⟩
  · rintro ⟨⟨hfilled, hchain⟩, hp, hlast⟩
    refine ⟨forall_mem_concat hfilled hp, ?_⟩
    refine List.isChain_append.2 ⟨hchain, .singleton p, fun q hq => ?_⟩
    rintro _ ⟨⟩
    exact hlast q hq

/-- A part without text may stand behind any other. -/
theorem Merged.concat (h : Merged text? parts) (hp : text? p = none) : Merged text? (parts ++ [p]) := by
  refine merged_concat.2 ⟨h, ?_, fun _ _ => .inr ?_⟩
  · rw [hp]
    exact nofun
  · rw [hp]
    rfl

/-- A text may stand behind a part without text. -/
theorem Merged.concat_text (h : Merged text? parts) (hlast : ∀ q ∈ parts.getLast?, text? q = none)
    (hp : text? p = some text) (ht : text ≠ "") : Merged text? (parts ++ [p]) := by
  refine merged_concat.2 ⟨h, ?_, fun q hq => .inl ?_⟩
  · rw [hp]
    exact fun h => ht (Option.some.inj h)
  · rw [hlast q hq]
    rfl

/-- A text may take more text. -/
theorem Merged.join (h : Merged text? (parts ++ [p])) (hp : text? p = some last)
    (hq : text? q = some (last ++ text)) (ht : text ≠ "") : Merged text? (parts ++ [q]) := by
  obtain ⟨hparts, -, hlast⟩ := merged_concat.1 h
  refine hparts.concat_text (fun r hr => ?_) hq fun hempty => ht ?_
  · rcases hlast r hr with hnone | hnone
    · exact Option.isNone_iff_eq_none.1 hnone
    · rw [hp] at hnone
      cases hnone
  · exact (String.append_eq_empty_iff.1 hempty).2

end

/-- The parts of an attribute value: joined text and operands. -/
structure SoundValue (o : Origin) (parts : List (AttributeValuePart Expr)) : Prop where
  merged : Merged AttributeValuePart.text? parts
  operands : ∀ e ∈ parts.flatMap AttributeValuePart.children, e.IsOperand o

theorem SoundValue.nil : SoundValue o [] := ⟨.nil, List.forall_mem_nil _⟩

theorem SoundValue.enclosed {parts : List (AttributeValuePart Expr)} {e : Expr}
    (h : SoundValue o parts) (he : e.IsOperand o) : SoundValue o (parts ++ [.enclosed e]) where
  merged := h.merged.concat rfl
  operands := by
    rw [List.flatMap_append, List.flatMap_singleton]
    exact forall_mem_concat h.operands he

theorem SoundValue.addText {parts : List (AttributeValuePart Expr)} {text : String}
    (h : SoundValue o parts) (ht : text ≠ "") : SoundValue o (AttributeValuePart.addText parts text) := by
  have htext {before : List (AttributeValuePart Expr)} {t : String}
      (hm : Merged AttributeValuePart.text? (before ++ [.text t])) (hb : ∀ p ∈ before, p ∈ parts) :
      SoundValue o (before ++ [.text t]) := by
    refine ⟨hm, ?_⟩
    rw [List.flatMap_append, List.flatMap_singleton]
    refine List.forall_mem_append.2 ⟨?_, List.forall_mem_nil _⟩
    exact List.forall_mem_flatMap.2 fun p hp => List.forall_mem_flatMap.1 h.operands p (hb p hp)
  unfold AttributeValuePart.addText
  split
  · rename_i last hlast
    obtain ⟨before, rfl⟩ := List.getLast?_eq_some_iff.1 hlast
    rw [List.dropLast_concat]
    exact htext (h.merged.join rfl rfl ht) fun p hp => List.mem_append_left _ hp
  · rename_i hlast
    refine htext (h.merged.concat_text (fun q hq => ?_) rfl ht) fun _ hp => hp
    cases q with
    | text last => exact absurd hq (hlast last)
    | enclosed e => rfl

/-- Text adds no expressions. -/
theorem AttributeValuePart.children_addText (parts : List (AttributeValuePart Expr)) (text : String) :
    (addText parts text).flatMap children = parts.flatMap children := by
  unfold addText
  split
  · rename_i last hlast
    obtain ⟨before, rfl⟩ := List.getLast?_eq_some_iff.1 hlast
    simp [children]
  · simp [children]

/-- Text adds no expressions. -/
theorem DirContent.children_addText (content : List (DirContent Expr)) (text : String) :
    (addText content text).flatMap children = content.flatMap children := by
  unfold addText
  split
  · rename_i last hlast
    obtain ⟨before, rfl⟩ := List.getLast?_eq_some_iff.1 hlast
    simp [children]
  · simp [children]

/-- Element content: joined text, operands, and markup. -/
structure SoundContent (o : Origin) (content : List (DirContent Expr)) : Prop where
  merged : Merged DirContent.text? content
  operands : ∀ e ∈ content.flatMap DirContent.children, e.IsOperand o
  nested : ∀ n, .node n ∈ content → n.kind.isMarkup

theorem SoundContent.nil : SoundContent o [] := ⟨.nil, List.forall_mem_nil _, fun _ h => nomatch h⟩

/-- A part of element content that is not text. -/
structure SoundInner (o : Origin) (p : DirContent Expr) : Prop where
  apart : p.text? = none
  operands : ∀ e ∈ p.children, e.IsOperand o
  nested : ∀ n, p = .node n → n.kind.isMarkup

theorem SoundContent.concat {content : List (DirContent Expr)} {p : DirContent Expr}
    (h : SoundContent o content) (hp : SoundInner o p) : SoundContent o (content ++ [p]) where
  merged := h.merged.concat hp.apart
  operands := by
    rw [List.flatMap_append, List.flatMap_singleton]
    exact List.forall_mem_append.2 ⟨h.operands, hp.operands⟩
  nested n hmem := by
    rcases List.mem_append.1 hmem with hmem | hmem
    · exact h.nested n hmem
    · exact hp.nested n (List.mem_singleton.1 hmem).symm

theorem SoundContent.addText {content : List (DirContent Expr)} {text : String}
    (h : SoundContent o content) (ht : text ≠ "") : SoundContent o (DirContent.addText content text) := by
  have htext {before : List (DirContent Expr)} {t : String}
      (hm : Merged DirContent.text? (before ++ [.text t])) (hb : ∀ p ∈ before, p ∈ content) :
      SoundContent o (before ++ [.text t]) := by
    refine ⟨hm, ?_, fun n hn => ?_⟩
    · rw [List.flatMap_append, List.flatMap_singleton]
      refine List.forall_mem_append.2 ⟨?_, List.forall_mem_nil _⟩
      exact List.forall_mem_flatMap.2 fun p hp => List.forall_mem_flatMap.1 h.operands p (hb p hp)
    · rcases List.mem_append.1 hn with hn | hn
      · exact h.nested n (hb _ hn)
      · cases List.mem_singleton.1 hn
  unfold DirContent.addText
  split
  · rename_i last hlast
    obtain ⟨before, rfl⟩ := List.getLast?_eq_some_iff.1 hlast
    rw [List.dropLast_concat]
    exact htext (h.merged.join rfl rfl ht) fun p hp => List.mem_append_left _ hp
  · rename_i hlast
    refine htext (h.merged.concat_text (fun q hq => ?_) rfl ht) fun _ hp => hp
    cases q with
    | text last => exact absurd hq (hlast last)
    | _ => rfl

namespace Grammar

open XQuerySyntax.Parser

variable {d : Nat} {K : Knowledge} {single : Parser Expr} {offset : Nat}

/-! ### Markup -/

/-- An operand that is markup. -/
abbrev IsMarkup (o : Origin) (e : Expr) : Prop := e.IsOperand o ∧ e.kind.isMarkup

theorem yields_markup {kind : ExprKind Expr} (ho : o.HasPlace offset) (hk : kind.IsOperand o)
    (hm : kind.isMarkup) : Yields o d (node kind offset) (IsMarkup o) := by
  have hkind : Yields o d (node kind offset) fun e => e.kind = kind :=
    yields_get.bind fun _ _ => yields_pure rfl
  intro K s hs
  have hoperand := yields_operand ho hk K s hs
  have hform := hkind K s hs
  exact hoperand.mono fun _ hc => ⟨⟨hc.1, by rw [hform.context.1]; exact hm⟩, hc.2⟩

theorem yields_dirComment (ho : o.HasPlace offset) : Yields o d (dirComment offset) (IsMarkup o) :=
  (yields_lexeme scanMarkupComment_within).bind fun _ _ =>
    yields_markup ho (.bare rfl rfl rfl (List.forall_mem_nil _) trivial) rfl

theorem yields_dirPi (ho : o.HasPlace offset) : Yields o d (dirPi offset) (IsMarkup o) := by
  have hend (target : String) : Yields o d (do
      let content ← lexeme (scanDelimited "?>" "processing instruction")
      node (.dirPi target (content.getD "")) offset) (IsMarkup o) :=
    (yields_lexeme (scanDelimited_within _ _)).bind fun _ _ =>
      yields_markup ho (.bare rfl rfl rfl (List.forall_mem_nil _) trivial) rfl
  refine (yields_capturedName 0).bind fun target _ => yields_ite (fun _ => ?_) fun _ => hend target
  exact (yields_record ho _ _).bind fun _ _ => hend target

/-- Inside a frame the binding of an attribute leaves no trace behind the frame. -/
theorem turns_namespaceAttribute (qualifier : Option String) (value : List (AttributeValuePart Expr))
    (ho : o.HasPlace offset) (earlier : List NamespaceBinding) :
    Turns o d K.framed.holds (namespaceAttribute qualifier value offset earlier)
      fun _ => K.framed.holds := by
  have hrecord (code : ErrorCode) (message : String) {β : Type} {next : Unit → Parser β}
      (hn : Turns o d K.framed.holds (next ()) fun _ => K.framed.holds) :
      Turns o d K.framed.holds (record code offset message >>= next) fun _ => K.framed.holds :=
    (yields_record ho _ _).turns_bind fun _ _ => hn
  have hbind (q uri : String) (binding : NamespaceBinding) : Turns o d K.framed.holds (do
      amend (·.bind q uri)
      return binding) fun _ => K.framed.holds :=
    (turns_amend fun _ hc => K.framed_bind hc q uri).bind fun _ => turns_pure fun _ hc => hc
  refine (yields_forIn (fun _ => yields_record ho _ _) _).turns_bind fun _ _ => ?_
  cases qualifier with
  | none =>
    have hend (uri : String) : Turns o d K.framed.holds (do
        checkDefaultNamespace uri offset
        amend (·.bind "" uri)
        return NamespaceBinding.mk none uri) fun _ => K.framed.holds :=
      (yields_checkDefaultNamespace uri ho).turns_bind fun _ _ => hbind _ _ _
    exact turns_ite (fun _ => hrecord _ _ (hend _)) fun _ => hend _
  | some q =>
    have hend (uri : String) : Turns o d K.framed.holds (do
        if uri = "" then
          record .emptyNamespaceUri offset
            ("namespace prefix '" ++ q ++ "' cannot be bound to an empty URI")
        checkBinding q uri offset
        amend (·.bind q uri)
        return NamespaceBinding.mk (some q) uri) fun _ => K.framed.holds := by
      have hcheck : Turns o d K.framed.holds (do
          checkBinding q uri offset
          amend (·.bind q uri)
          return NamespaceBinding.mk (some q) uri) fun _ => K.framed.holds :=
        (yields_checkBinding q uri ho).turns_bind fun _ _ => hbind _ _ _
      exact turns_ite (fun _ => hrecord _ _ hcheck) fun _ => hcheck
    exact turns_ite (fun _ => hrecord _ _ (hend _)) fun _ => hend _

/-- An attribute value that stands in a place of the text. -/
abbrev SoundAttribute (o : Origin) (value : List (AttributeValuePart Expr)) (offset : Nat) : Prop :=
  SoundValue o value ∧ o.HasPlace offset

theorem yields_resolveAttributes (seen : List ExpandedName) (attributes : List RawAttribute)
    (h : ∀ a ∈ attributes, SoundAttribute o a.value a.offset) :
    Yields o d (resolveAttributes seen attributes) fun resolved =>
      ∀ a ∈ resolved, SoundAttribute o a.value a.offset := by
  induction attributes generalizing seen with
  | nil => exact yields_pure (List.forall_mem_nil _)
  | cons a rest ih =>
    obtain ⟨ha, hrest⟩ := List.forall_mem_cons.1 h
    have hend (name : QName) : Yields o d (do
        return DirAttribute.mk name a.value a.offset :: (← resolveAttributes (name.expanded :: seen) rest))
        fun resolved => ∀ a ∈ resolved, SoundAttribute o a.value a.offset :=
      (ih _ hrest).bind fun _ hs => yields_pure (List.forall_mem_cons.2 ⟨ha, hs⟩)
    refine (yields_plainName a.name ha.2).bind fun name _ => yields_ite (fun _ => ?_) fun _ => hend name
    exact (yields_record ha.2 _ _).bind fun _ _ => hend name

theorem yields_enclosedContent (h : YieldsOperand o single) :
    Yields o d (enclosedContent single) (Expr.IsOperand o) := by
  refine yields_start.bind fun offset ho => yields_ifEat (yields_emptySequence ho) ?_
  refine (yields_expr h).bind fun e he => (yields_eat _).bind fun _ _ => ?_
  exact yields_ite (fun _ => yields_unexpected_bind _) fun _ => yields_pure he

/-- Text that is read between markup. -/
theorem yields_markupText (delimiter : Option Char) :
    Yields o d (lexeme (scanMarkupText delimiter)) fun found => ∀ t ∈ found, t.value ≠ "" :=
  yields_scan (Scan.stays_lexeme (scanMarkupText_within delimiter) fun _ _ _ => scanMarkupText_ne_empty)

theorem yields_attributeValueStep (h : YieldsOperand o single) (delimiter : Char) (close : Rule)
    (parts : List (AttributeValuePart Expr)) (hparts : SoundValue o parts) :
    Yields o d (attributeValueStep single delimiter close parts)
      (Sum.elim (SoundValue o) (SoundValue o)) := by
  refine (yields_markupText _).bind ?_
  rintro (_ | text) htext
  · refine yields_ifEat (yields_pure hparts) (yields_ifEat ?_ (yields_unexpected _))
    exact (yields_enclosedContent h).bind fun e he => yields_pure (hparts.enclosed he)
  · exact yields_pure (hparts.addText (htext text rfl))

theorem yields_attributeValue (h : YieldsOperand o single) :
    Yields o d (attributeValue single) (SoundValue o) :=
  yields_ifEat (yields_iterate (yields_attributeValueStep h _ _) .nil)
    (yields_ifEat (yields_iterate (yields_attributeValueStep h _ _) .nil) (yields_unexpected _))

/-- The attributes of a tag that are read so far, and what is known inside the frame of the tag. -/
abbrev InTag (o : Origin) (K : Knowledge) (tag : TagAttributes) (c : StaticContext) : Prop :=
  (∀ a ∈ tag.raw, SoundAttribute o a.value a.offset) ∧ K.framed.holds c

theorem turns_tagAttributeStep (h : YieldsOperand o single) (tag : TagAttributes) :
    Turns o d (InTag o K tag) (tagAttributeStep single tag)
      fun next c => Sum.elim (InTag o K · c) (InTag o K · c) next := by
  refine turns_of_known fun hraw => (yields_eat _).turns_bind fun _ _ => turns_ite
    (fun _ => turns_pure fun _ hc => ⟨hraw, hc⟩) fun _ => ?_
  refine yields_start.turns_bind fun offset ho => (yields_capturedQualifiedName 0).turns_bind fun name _ => ?_
  refine (yields_attributeValue h).turns_bind fun value hvalue => turns_ite (fun _ => ?_) fun _ => ?_
  · refine (turns_namespaceAttribute _ _ ho _).bind fun _ => turns_pure fun _ hc => ?_
    exact ⟨hraw, hc⟩
  · refine turns_ite (fun _ => ?_) fun _ => turns_pure fun _ hc => ?_
    · refine (turns_namespaceAttribute _ _ ho _).bind fun _ => turns_pure fun _ hc => ?_
      exact ⟨hraw, hc⟩
    · exact ⟨forall_mem_concat hraw ⟨hvalue, ho⟩, hc⟩

section

variable {element : Nat → Parser Expr}

theorem yields_nestedNode (h : ∀ offset, o.HasPlace offset → Yields o d (element offset) (IsMarkup o)) :
    Yields o d (nestedNode element) fun found => ∀ p ∈ found, SoundInner o p := by
  have hnode {p : Parser Expr} (hp : Yields o d p (IsMarkup o)) :
      Yields o d (do return some (DirContent.node (← p))) fun found => ∀ p ∈ found, SoundInner o p := by
    refine hp.bind fun e he => yields_some ⟨rfl, List.forall_mem_singleton.2 he.1, ?_⟩
    rintro _ ⟨⟩
    exact he.2
  refine yields_ifEat ?_ (yields_ifEat ?_ (yields_ifEat ?_ (yields_ifEat ?_ yields_none)))
  · exact yields_start.bind fun offset ho => hnode (h offset ho)
  · exact (yields_lexeme scanLiteralSection_within).bind fun _ _ =>
      yields_some ⟨rfl, List.forall_mem_nil _, fun _ h => nomatch h⟩
  · exact yields_start.bind fun offset ho => hnode (yields_dirComment ho)
  · exact yields_start.bind fun offset ho => hnode (yields_dirPi ho)

theorem yields_checkEndTag (opened : LexicalName) : Yields o d (checkEndTag opened) fun _ => True := by
  refine (yields_capturedQualifiedName 0).bind fun _ _ => yields_ite (fun _ => ?_) fun _ => yields_any
  exact yields_start.bind fun _ ho => yields_fatal ho _ _

theorem yields_elementContentStep (hs : YieldsOperand o single)
    (h : ∀ offset, o.HasPlace offset → Yields o d (element offset) (IsMarkup o)) (strip : Bool)
    (opened : LexicalName) (content : List (DirContent Expr)) (hc : SoundContent o content) :
    Yields o d (elementContentStep single element strip opened content)
      (Sum.elim (SoundContent o) (SoundContent o)) := by
  refine yields_ifEat ((yields_checkEndTag opened).bind fun _ _ => yields_pure hc)
    ((yields_nestedNode h).bind ?_)
  rintro (_ | inner) hinner
  · refine (yields_markupText none).bind ?_
    rintro (_ | text) htext
    · have hatEnd : Yields o d (observe (·.cursor.atEnd) fun _ => true) fun _ => True :=
        yields_observe fun _ _ => trivial
      refine yields_ifEat ?_ (hatEnd.bind ?_)
      · refine (yields_enclosedContent hs).bind fun e he => yields_pure ?_
        exact hc.concat ⟨rfl, List.forall_mem_singleton.2 he, fun _ h => nomatch h⟩
      · refine fun _ _ => yields_ite (fun _ => ?_) fun _ => yields_unexpected _
        refine (yields_observe fun _ hm => hm.pos).bind fun _ ho => ?_
        exact yields_fatal_bind ho _ _
    · exact yields_ite (fun _ => yields_pure hc) fun _ => yields_pure (hc.addText (htext text rfl))
  · exact yields_pure (hc.concat (hinner inner rfl))

theorem yields_elementContent (hs : YieldsOperand o single)
    (h : ∀ offset, o.HasPlace offset → Yields o d (element offset) (IsMarkup o)) (opened : LexicalName) :
    Yields o d (elementContent single element opened) (SoundContent o) :=
  (yields_consult _).bind fun strip _ =>
    yields_iterate (yields_elementContentStep hs h strip opened) .nil

/-- An element has the attributes and the content that were read, and none if it closes itself. -/
theorem isOperand_dirElement {element : DirElement Expr}
    (ha : ∀ a ∈ element.attributes, SoundAttribute o a.value a.offset)
    (hc : SoundContent o element.content) (hs : element.selfClosing → element.content = []) :
    (ExprKind.dirElement element).IsOperand o where
  operands := List.forall_mem_append.2
    ⟨List.forall_mem_flatMap.2 fun a h => (ha a h).1.operands, hc.operands⟩
  shape := ⟨hs, fun a h => (ha a h).1.merged, hc.merged, hc.nested⟩
  types := List.forall_mem_nil _
  places := List.forall_mem_map.2 fun a h => (ha a h).2
  options := List.forall_mem_nil _
  steps := List.forall_mem_nil _
  arguments := List.forall_mem_nil _
  not_step := rfl
  not_placeholder := rfl

theorem turns_elementInFrame (hs : YieldsOperand o single)
    (h : ∀ offset, o.HasPlace offset → Yields o d (element offset) (IsMarkup o)) (opened : LexicalName)
    (ho : o.HasPlace offset) :
    Turns o d K.framed.holds (elementInFrame single element opened offset)
      fun e c => IsMarkup o e ∧ K.framed.holds c := by
  have htag : Turns o d K.framed.holds (iterate (tagAttributeStep single) ⟨[], []⟩) (InTag o K) :=
    fun s hs' => turns_iterate (turns_tagAttributeStep hs) ⟨[], []⟩ s
      (hs'.mono fun _ hc => ⟨List.forall_mem_nil _, hc⟩)
  refine htag.bind fun tag => turns_of_known fun hraw => ?_
  refine (yields_elementName opened ho).turns_bind fun name _ => ?_
  refine (yields_resolveAttributes [] tag.raw hraw).turns_bind fun attributes hattributes => ?_
  have hclosed : Yields o d (node (.dirElement
      { name, attributes, namespaces := tag.namespaces, content := [], selfClosing := true }) offset)
      (IsMarkup o) :=
    yields_markup ho (isOperand_dirElement hattributes .nil fun _ => rfl) rfl
  have hopen : Yields o d (do
      let content ← elementContent single element opened
      node (.dirElement
        { name, attributes, namespaces := tag.namespaces, content, selfClosing := false }) offset)
      (IsMarkup o) :=
    (yields_elementContent hs h opened).bind fun content hc =>
      yields_markup ho (isOperand_dirElement hattributes hc nofun) rfl
  exact yields_ifEat hclosed ((yields_eat _).bind fun _ _ =>
    yields_ite (fun _ => yields_unexpected_bind _) fun _ => hopen) K.framed

end

/-- However far elements may nest, the frame of an element is closed behind it, and with it go all
bindings of its tag. -/
theorem yields_dirElementWithin (h : YieldsOperand o single) (n : Nat) (ho : o.HasPlace offset) :
    Yields o d (dirElementWithin single n offset) (IsMarkup o) := by
  induction n generalizing d offset with
  | zero => exact yields_exhausted
  | succ n ih =>
    refine (yields_capturedQualifiedName 0).bind fun opened _ => yields_nested fun _ K => ?_
    refine (turns_amend fun _ hc => K.framed_pushFrame hc).bind fun _ => ?_
    refine (turns_elementInFrame h (fun _ ho => ih ho) opened ho).bind fun e => ?_
    have hpop : Turns o (d + 1) K.framed.holds (amend (·.popFrame)) fun _ => K.holds :=
      turns_amend fun _ hc => hc.2
    exact turns_of_known fun he => hpop.bind fun _ => turns_pure fun _ hc => ⟨he, hc⟩

theorem yields_dirElement (h : YieldsOperand o single) (ho : o.HasPlace offset) :
    Yields o d (dirElement single offset) (IsMarkup o) :=
  yields_get.bind fun _ _ => yields_dirElementWithin h _ ho

theorem yields_directConstructor (h : YieldsOperand o single) :
    Yields o d (directConstructor single) fun found => ∀ e ∈ found, e.IsOperand o := by
  have hsome {p : Parser Expr} (hp : Yields o d p (IsMarkup o)) :
      Yields o d (do return some (← p)) fun found => ∀ e ∈ found, e.IsOperand o :=
    (hp.weaken fun _ he => he.1).some
  refine yields_ifEat ?_ (yields_ifEat ?_ (yields_ifEat ?_ yields_none))
  · exact yields_start.bind fun offset ho => hsome (yields_dirElement h ho)
  · exact yields_start.bind fun offset ho => hsome (yields_dirComment ho)
  · exact yields_start.bind fun offset ho => hsome (yields_dirPi ho)

/-! ### Computed constructors -/

theorem yields_computedName (h : YieldsOperand o single) :
    Yields o d (computedName single) fun n => ∀ e ∈ n.children, e.IsOperand o :=
  (yields_bracedExpr h).bind fun _ he => yields_pure (List.forall_mem_singleton.2 he)

theorem yields_literalName :
    Yields o d literalName fun n => ∀ e ∈ n.children, e.IsOperand o :=
  (yields_capturedName 0).bind fun _ _ => yields_pure (List.forall_mem_nil _)

/-- A form with a name and a content that may not be there. -/
def IsNamed (o : Origin) (form : ComputedName Expr → Option Expr → ExprKind Expr) : Prop :=
  ∀ name content, (∀ e ∈ name.children, e.IsOperand o) → (∀ e ∈ content, e.IsOperand o) →
    (form name content).IsOperand o

theorem isNamed_compElement : IsNamed o .compElement := fun _ _ hn hc =>
  (.bare rfl rfl rfl (List.forall_mem_append.2 ⟨hn, forall_mem_toList.2 hc⟩) trivial)

theorem isNamed_compAttribute : IsNamed o .compAttribute := fun _ _ hn hc =>
  (.bare rfl rfl rfl (List.forall_mem_append.2 ⟨hn, forall_mem_toList.2 hc⟩) trivial)

theorem isNamed_compPi : IsNamed o .compPi := fun _ _ hn hc =>
  (.bare rfl rfl rfl (List.forall_mem_append.2 ⟨hn, forall_mem_toList.2 hc⟩) trivial)

theorem yields_computedKind (h : YieldsOperand o single) :
    Yields o d (computedKind single) fun found => ∀ kind ∈ found, kind.IsOperand o := by
  -- Every form ends with its content in braces.
  have hcontent (form : Expr → ExprKind Expr) (hf : ∀ e, e.IsOperand o → (form e).IsOperand o) :
      Yields o d (do return some (form (← enclosedExpr single)))
        fun found => ∀ kind ∈ found, kind.IsOperand o :=
    (yields_enclosedExpr h).bind fun e he => yields_some (hf e he)
  have hoptional {form : ComputedName Expr → Option Expr → ExprKind Expr} (hf : IsNamed o form)
      (name : ComputedName Expr) (hn : ∀ e ∈ name.children, e.IsOperand o) :
      Yields o d (do return some (form name (← optionalExpr single)))
        fun found => ∀ kind ∈ found, kind.IsOperand o :=
    (yields_optionalExpr h).bind fun content hc => yields_some (hf name content hn hc)
  have hnamespace (name : ComputedName Expr) (hn : ∀ e ∈ name.children, e.IsOperand o) :=
    hcontent (.compNamespace name) fun _ he =>
      (.bare rfl rfl rfl (forall_mem_concat hn he) trivial)
  refine yields_ifEat ?_ (yields_ifEat ?_ (yields_ifEat ?_ (yields_ifEat ?_ (yields_ifEat ?_
    (yields_ifEat ?_ (yields_ifEat ?_ (yields_ifEat ?_ (yields_ifEat ?_ (yields_ifEat ?_
    (yields_ifEat ?_ yields_none))))))))))
  · exact hcontent _ fun _ he => .bare rfl rfl rfl (List.forall_mem_singleton.2 he) trivial
  · refine yields_start.bind fun offset ho => (yields_capturedQualifiedName 0).bind fun name _ => ?_
    exact (yields_elementName name ho).bind fun _ _ =>
      hoptional isNamed_compElement _ (List.forall_mem_nil _)
  · exact (yields_computedName h).bind (hoptional isNamed_compElement)
  · refine yields_start.bind fun offset ho => (yields_capturedQualifiedName 0).bind fun name _ => ?_
    exact (yields_plainName name ho).bind fun _ _ =>
      hoptional isNamed_compAttribute _ (List.forall_mem_nil _)
  · exact (yields_computedName h).bind (hoptional isNamed_compAttribute)
  · exact hcontent _ fun _ he => .bare rfl rfl rfl (List.forall_mem_singleton.2 he) trivial
  · exact hcontent _ fun _ he => .bare rfl rfl rfl (List.forall_mem_singleton.2 he) trivial
  · exact yields_literalName.bind (hoptional isNamed_compPi)
  · exact (yields_computedName h).bind (hoptional isNamed_compPi)
  · exact yields_literalName.bind hnamespace
  · exact (yields_computedName h).bind hnamespace

theorem yields_computedConstructor (h : YieldsOperand o single) :
    Yields o d (computedConstructor single) fun found => ∀ e ∈ found, e.IsOperand o := by
  refine yields_nextOffset.bind fun offset ho => (yields_computedKind h).bind ?_
  rintro (_ | kind) hk
  · exact yields_none
  · exact yields_someOperand ho (hk kind rfl)

end Grammar

end XQuerySyntax
