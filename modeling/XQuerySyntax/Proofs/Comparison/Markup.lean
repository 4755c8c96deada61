import XQuerySyntax.Proofs.Comparison.Statement

/-! Markup in two runs. Where markup is read, the runs stand at the same place. An expression in the
value of an attribute that binds a namespace does not get into the tree; a diagnostic says that it has
been dropped. -/

namespace XQuerySyntax

open Comparison

/-! ### Attributes and content at other places -/

/-- The attribute at another place. -/
def RawAttribute.moved (f : Nat → Nat) (a : RawAttribute) : RawAttribute where
  name := a.name
  value := a.value.map (AttributeValuePart.map (Expr.moved f))
  offset := f a.offset

/-- The attributes of a start tag at other places. -/
def Grammar.TagAttributes.moved (f : Nat → Nat) (tag : Grammar.TagAttributes) :
    Grammar.TagAttributes :=
  { tag with raw := tag.raw.map (RawAttribute.moved f) }

section

variable {ε ε' : Type} {h : ε → ε'}

theorem AttributeValuePart.addText_map (parts : List (AttributeValuePart ε)) (text : String) :
    addText (parts.map (AttributeValuePart.map h)) text =
      (addText parts text).map (AttributeValuePart.map h) := by
  unfold addText
  rw [List.getLast?_map]
  cases parts.getLast? with
  | none => simp [AttributeValuePart.map]
  | some part => cases part <;> simp [AttributeValuePart.map, List.map_dropLast]

theorem DirContent.addText_map (content : List (DirContent ε)) (text : String) :
    addText (content.map (DirContent.map h)) text = (addText content text).map (DirContent.map h) := by
  unfold addText
  rw [List.getLast?_map]
  cases content.getLast? with
  | none => simp [DirContent.map]
  | some part => cases part <;> simp [DirContent.map, List.map_dropLast]

theorem AttributeValuePart.literalText_map (parts : List (AttributeValuePart ε)) :
    literalText (parts.map (AttributeValuePart.map h)) = literalText parts := by
  unfold literalText
  rw [List.foldl_map]
  refine congrArg (fun f => List.foldl f "" parts) (funext₂ fun text part => ?_)
  cases part <;> rfl

theorem AttributeValuePart.enclosedCount_map (parts : List (AttributeValuePart ε)) :
    enclosedCount (parts.map (AttributeValuePart.map h)) = enclosedCount parts := by
  unfold enclosedCount
  rw [List.countP_map]
  refine congrArg (List.countP · parts) (funext fun part => ?_)
  cases part <;> rfl

end

namespace Comparison

variable {S : Comparison}

def rawAttribute (S : Comparison) : S.Likeness RawAttribute :=
  .moving RawAttribute.moved fun a => S.valuePart.list.owes a.value

def tagAttributes (S : Comparison) : S.Likeness Grammar.TagAttributes :=
  .moving Grammar.TagAttributes.moved fun tag => S.rawAttribute.list.owes tag.raw

@[simp]
theorem owes_rawAttribute (a : RawAttribute) :
    S.rawAttribute.owes a ↔ S.valuePart.list.owes a.value := Iff.rfl

@[simp]
theorem owes_tagAttributes (tag : Grammar.TagAttributes) :
    S.tagAttributes.owes tag ↔ S.rawAttribute.list.owes tag.raw := Iff.rfl

/-- Text adds nothing to what a value shows. -/
@[simp]
theorem owes_valueText (parts : List (AttributeValuePart Expr)) (text : String) :
    S.valuePart.list.owes (AttributeValuePart.addText parts text) ↔ S.valuePart.list.owes parts := by
  unfold AttributeValuePart.addText
  cases List.eq_nil_or_concat' parts with
  | inl hnil => simp [hnil, AttributeValuePart.children]
  | inr hlast =>
    obtain ⟨before, last, rfl⟩ := hlast
    cases last <;> simp [AttributeValuePart.children]

@[simp]
theorem owes_contentText (content : List (DirContent Expr)) (text : String) :
    S.dirContent.list.owes (DirContent.addText content text) ↔ S.dirContent.list.owes content := by
  unfold DirContent.addText
  cases List.eq_nil_or_concat' content with
  | inl hnil => simp [hnil, DirContent.children]
  | inr hlast =>
    obtain ⟨before, last, rfl⟩ := hlast
    cases last <;> simp [DirContent.children]

theorem like_valueText {parts parts' : List (AttributeValuePart Expr)}
    (h : S.valuePart.list.like parts parts') (text : String) :
    S.valuePart.list.like (AttributeValuePart.addText parts text)
      (AttributeValuePart.addText parts' text) :=
  like_apply (F := (AttributeValuePart.addText · text))
    (fun _ parts => AttributeValuePart.addText_map parts text) h

theorem like_contentText {content content' : List (DirContent Expr)}
    (h : S.dirContent.list.like content content') (text : String) :
    S.dirContent.list.like (DirContent.addText content text) (DirContent.addText content' text) :=
  like_apply (F := (DirContent.addText · text)) (fun _ content => DirContent.addText_map content text) h

/-- Like values have the same text and equally many expressions. -/
theorem literalText_of_like {parts parts' : List (AttributeValuePart Expr)}
    (h : S.valuePart.list.like parts parts') :
    AttributeValuePart.literalText parts = AttributeValuePart.literalText parts' :=
  same_of_like (fun _ => AttributeValuePart.literalText_map) h

theorem enclosedCount_of_like {parts parts' : List (AttributeValuePart Expr)}
    (h : S.valuePart.list.like parts parts') :
    AttributeValuePart.enclosedCount parts = AttributeValuePart.enclosedCount parts' :=
  same_of_like (fun _ => AttributeValuePart.enclosedCount_map) h

/-- A value shows something only in its expressions. -/
theorem enclosedCount_pos {parts : List (AttributeValuePart Expr)} (h : S.valuePart.list.owes parts) :
    0 < AttributeValuePart.enclosedCount parts := by
  obtain ⟨part, hmem, howes⟩ := h
  refine List.countP_pos_iff.2 ⟨part, hmem, ?_⟩
  cases part with
  | text => simp [AttributeValuePart.children] at howes
  | enclosed => rfl

end Comparison

namespace Grammar

open XQuerySyntax.Parser

attribute [local simp] owes_kind ExprKind.belongsTo ExprKind.children ComputedName.children or_assoc

variable {S : Comparison} {t : Stage} {o o' : Nat} {single single' : Parser Expr}

theorem agree_dirComment (ho : S.offset.like o o') :
    S.Agree False (S.Near .behind) (dirComment o) (dirComment o') S.expr fun _ => S.Near .behind :=
  .then (agree_lexeme scanMarkupComment_within) fun _ => agree_node rfl ho (by simp)

theorem agree_dirPi (ho : S.offset.like o o') :
    S.Agree False (S.Fresh .behind) (dirPi o) (dirPi o') S.expr fun _ => S.Near .behind := by
  refine .then (agree_capturedName 0) fun target => .settle (t := .behind) (agree_recordIf ho ?_)
  exact .then (agree_lexeme (scanDelimited_within _ _)) fun _ => agree_node rfl ho (by simp)

/-! ### Attributes -/

/-- An expression in the value of an attribute that binds a namespace is recorded as an error, so a run
that is lost by what the value shows stays lost when the value is dropped. -/
theorem agree_recordEnclosed (ho : S.offset.like o o') {shown : Prop} {n : Nat} (hn : shown → 0 < n)
    (message : String) : S.Agree shown (S.Near t)
      (forIn (List.range n) PUnit.unit fun _ _ => do
        record .namespaceAttributeNotLiteral o message
        pure (ForInStep.yield PUnit.unit))
      (forIn (List.range n) PUnit.unit fun _ _ => do
        record .namespaceAttributeNotLiteral o' message
        pure (ForInStep.yield PUnit.unit)) .plain fun _ => S.Near t := by
  have hloop (ns : List Nat) := agree_forIn (P := S.Near t) (fun _ : Nat =>
    pairs_record ho .namespaceAttributeNotLiteral message t) ns
  refine ⟨fun s a s₁ hlost hr => ?_, fun _ => (hloop (List.range n)).follows not_false⟩
  rcases hlost with ⟨hon, hshown | hspoiled⟩
  · obtain ⟨m, rfl⟩ : ∃ m, n = m + 1 := ⟨n - 1, by have := hn hshown; omega⟩
    rw [List.range_succ_eq_map, List.forIn_cons, bind_assoc] at hr
    refine (hloop _).lost _ a s₁ ⟨hon, .inr ?_⟩ hr
    exact ⟨_, List.mem_append_right _ List.mem_cons_self, rfl⟩
  · exact (hloop _).lost s a s₁ ⟨hon, .inr hspoiled⟩ hr

theorem pairs_namespaceAttribute (ho : S.offset.like o o') (qualifier : Option String)
    {value value' : List (AttributeValuePart Expr)} (hv : S.valuePart.list.like value value')
    (earlier : List NamespaceBinding) : S.PairsOn (S.valuePart.list.owes value) .plain
      (namespaceAttribute qualifier value o earlier)
      (namespaceAttribute qualifier value' o' earlier) := by
  intro t
  unfold namespaceAttribute
  rw [literalText_of_like hv, ← enclosedCount_of_like hv]
  refine .andThen (agree_recordEnclosed ho enclosedCount_pos _) fun _ _ _ => ?_
  refine agree_recordIf ho ?_
  cases qualifier with
  | some q =>
    refine agree_recordIf ho (.then (pairs_checkBinding ho q _ t) fun _ => ?_)
    exact .then (pairs_amendAlike _ (fun _ _ h => h.bind q _) t) fun _ => .plain _
  | none =>
    refine .then (pairs_checkDefaultNamespace ho _ t) fun _ => ?_
    exact .then (pairs_amendAlike _ (fun _ _ h => h.bind "" _) t) fun _ => .plain _

/-- Resolving the names of attributes keeps their values. -/
theorem pairs_resolveAttributes (seen : List ExpandedName) {raw raw' : List RawAttribute}
    (h : S.rawAttribute.list.like raw raw') : S.PairsOn (S.rawAttribute.list.owes raw)
      S.dirAttribute.list (resolveAttributes seen raw) (resolveAttributes seen raw') := by
  intro t
  induction h generalizing seen with
  | nil => exact .give .nil (by simp)
  | @cons a a' raw raw' ha _ ih =>
    obtain ⟨name, value, offset⟩ := a
    obtain ⟨name', value', offset'⟩ := a'
    obtain ⟨rfl, hvalue, ho⟩ := RawAttribute.mk.inj ha
    refine .then (pairs_plainName ho name t) fun name => agree_recordIf ho ?_
    refine .shows (.bindKeep (K := S.valuePart.list.owes value) (fun _ => ih _) ?_) ?_
    · intro attributes attributes' hattributes
      refine .give (.cons ?_ hattributes) (by simp [DirAttribute.children])
      exact congrArg₂ (DirAttribute.mk name) hvalue ho
    · simp [or_comm]

theorem agree_enclosedContent (h : S.Pairs S.expr single single') :
    S.Agree False (S.Fresh .behind) (enclosedContent single) (enclosedContent single') S.expr
      fun _ => S.Near .behind := by
  refine .seq agree_start fun o o' ho => .settle (t := .behind) (agree_ifEat S.core_kept (agree_node rfl ho (by simp)) ?_)
  refine .andThen (pairs_expr h _) fun e e' he => agree_unlessEat S.core_kept ?_ (.give he Iff.rfl)
  exact .then (Q := fun _ => S.Near .behind) (agree_unexpected _) fun _ => .give he Iff.rfl

theorem agree_attributeValueStep (h : S.Pairs S.expr single single') (delimiter : Char) {close : Rule}
    (hc : close.extension = .core) {parts parts' : List (AttributeValuePart Expr)}
    (hp : S.valuePart.list.like parts parts') :
    S.Agree (S.valuePart.list.owes parts) (S.Near .behind)
      (attributeValueStep single delimiter close parts)
      (attributeValueStep single' delimiter close parts') (.sum S.valuePart.list S.valuePart.list)
      fun _ => S.Near .behind := by
  refine .then (agree_lexeme (scanMarkupText_within _)) ?_
  rintro (_ | text)
  · refine agree_ifEat (hc ▸ S.core_kept) (.give hp Iff.rfl) (agree_ifReads S.core_kept ?_ (agree_unexpected _))
    refine .bind (agree_enclosedContent h) fun e e' he => ?_
    refine .give (like_concat hp ?_) (by simp [AttributeValuePart.children])
    exact congrArg AttributeValuePart.enclosed he
  · exact .give (like_valueText hp text.value) (by simp)

theorem agree_attributeValue (h : S.Pairs S.expr single single') :
    S.Agree False (S.Near t) (attributeValue single) (attributeValue single') S.valuePart.list
      fun _ => S.Near .behind := by
  have hloop (delimiter : Char) {close : Rule} (hc : close.extension = .core) :
      S.Agree False (S.Fresh .behind) (iterate (attributeValueStep single delimiter close) [])
        (iterate (attributeValueStep single' delimiter close) []) S.valuePart.list
        fun _ => S.Near .behind :=
    .settle (t := .behind) (.shows (agree_iterate (fun _ _ => agree_attributeValueStep h delimiter hc) .nil)
      (by simp))
  exact agree_ifReads S.core_kept (hloop _ rfl) (agree_ifReads S.core_kept (hloop _ rfl) (agree_unexpected _))

theorem agree_tagAttributeStep (h : S.Pairs S.expr single single') {tag tag' : TagAttributes}
    (ht : S.tagAttributes.like tag tag') :
    S.Agree (S.tagAttributes.owes tag) (S.Near .behind) (tagAttributeStep single tag)
      (tagAttributeStep single' tag') (.sum S.tagAttributes S.tagAttributes) fun _ => S.Near .behind := by
  obtain ⟨raw, namespaces⟩ := tag
  obtain ⟨raw', namespaces'⟩ := tag'
  obtain ⟨hraw, rfl⟩ := TagAttributes.mk.inj ht
  refine .then (fresh_eat S.core_kept) ?_
  rintro (_ | _)
  · exact .give ht Iff.rfl
  refine .seq agree_start fun o o' ho => .then (agree_capturedQualifiedName 0) fun name => ?_
  refine .settle (t := .behind) (.bind (agree_attributeValue h) fun value value' hv => ?_)
  have hbinding (qualifier : Option String) :
      S.Agree (S.rawAttribute.list.owes raw ∨ S.valuePart.list.owes value) (S.Near .behind)
        (do
          let binding ← namespaceAttribute qualifier value o namespaces
          return .inl ⟨raw, namespaces ++ [binding]⟩)
        (do
          let binding ← namespaceAttribute qualifier value' o' namespaces
          return .inl ⟨raw', namespaces ++ [binding]⟩) (.sum S.tagAttributes S.tagAttributes)
        fun _ => S.Near .behind := by
    refine .shows (.bindKeep (fun _ => pairs_namespaceAttribute ho qualifier hv namespaces _) ?_) or_comm
    rintro binding _ rfl
    exact .give (congrArg (TagAttributes.mk · (namespaces ++ [binding])) hraw) (by simp)
  refine .ite (fun _ => hbinding _) fun _ => .ite (fun _ => hbinding _) fun _ => ?_
  refine .give (congrArg (TagAttributes.mk · namespaces) ?_) (by simp [or_comm])
  exact map_of_like (like_concat (L := S.rawAttribute) (like_of_map hraw)
    (congrArg₂ (RawAttribute.mk name) (map_of_like hv) ho))

/-! ### Elements -/

section

variable {element element' : Nat → Parser Expr}

/-- Two parsers of elements agree behind the name of an element. -/
def ElementsAgree (S : Comparison) (element element' : Nat → Parser Expr) : Prop :=
  ∀ o o', S.offset.like o o' →
    S.Agree False (S.Fresh .behind) (element o) (element' o') S.expr fun _ => S.Near .behind

theorem agree_nestedNode (he : ElementsAgree S element element') :
    S.Agree False (S.Near .behind) (nestedNode element) (nestedNode element') S.dirContent.option
      fun _ => S.Near .behind := by
  have hnode {p p' : Parser Expr} (hp : S.Agree False (S.Fresh .behind) p p' S.expr fun _ => S.Near .behind) :
      S.Agree False (S.Fresh .behind) (p >>= fun e => pure (some (.node e)))
        (p' >>= fun e => pure (some (.node e))) S.dirContent.option fun _ => S.Near .behind :=
    .andThen hp fun e e' he => .give (.some (congrArg DirContent.node he)) (by simp [DirContent.children])
  refine agree_ifReads S.core_kept ?_ (agree_ifEat S.core_kept ?_ (agree_ifReads S.core_kept ?_ (agree_ifReads S.core_kept ?_ .absent)))
  · exact .seq agree_start fun o o' ho => hnode (he o o' ho)
  · exact .then (agree_lexeme scanLiteralSection_within) fun body => .give (.some rfl) (by simp [DirContent.children])
  · exact .seq agree_start fun o o' ho => hnode (agree_dirComment ho).settle
  · exact .seq agree_start fun o o' ho => hnode (agree_dirPi ho)

theorem agree_checkEndTag (opened : LexicalName) : S.Agree False (S.Fresh .behind) (checkEndTag opened)
    (checkEndTag opened) .plain fun _ => S.Near .behind := by
  refine .then (agree_capturedQualifiedName 0) fun closed => .ite (fun _ => ?_) fun _ => ?_
  · exact .seq agree_start fun o o' ho => .settle (t := .behind) (agree_fatal (eq_of_offset ho) _ _)
  · exact .settle (.plain _)

theorem agree_elementContentStep (h : S.Pairs S.expr single single')
    (he : ElementsAgree S element element')
    (strip : Bool) (opened : LexicalName) {content content' : List (DirContent Expr)}
    (hc : S.dirContent.list.like content content') :
    S.Agree (S.dirContent.list.owes content) (S.Near .behind)
      (elementContentStep single element strip opened content)
      (elementContentStep single' element' strip opened content')
      (.sum S.dirContent.list S.dirContent.list) fun _ => S.Near .behind := by
  refine agree_ifReads S.core_kept ?_ (.bind (agree_nestedNode he) ?_)
  · exact .then (agree_checkEndTag opened) fun _ => .give hc Iff.rfl
  rintro _ _ (hinner | _)
  · exact .give (like_concat hc hinner) (by simp)
  refine .shows (K := S.dirContent.list.owes content) (.then (agree_lexeme (scanMarkupText_within _)) ?_) (by simp)
  rintro (_ | text)
  · refine agree_ifReads S.core_kept ?_ ?_
    · refine .bind (agree_enclosedContent h) fun e e' he => ?_
      refine .give (like_concat hc ?_) (by simp [DirContent.children])
      exact congrArg DirContent.enclosed he
    · refine .then (agree_observe (fun _ h => h) fun _ _ h => (S.atEnd_eq h.scan).symm) fun _ => .ite (fun _ => ?_) fun _ => ?_
      · refine .seq (agree_position) fun p p' hp => ?_
        exact .then (Q := fun _ => S.Near .behind) (agree_fatal hp _ _) fun _ => agree_unexpected _
      · exact agree_unexpected _
  · exact .ite (fun _ => .give hc Iff.rfl) fun _ => .give (like_contentText hc text.value) (by simp)

theorem agree_elementContent (h : S.Pairs S.expr single single')
    (he : ElementsAgree S element element')
    (opened : LexicalName) :
    S.Agree False (S.Near .behind) (elementContent single element opened)
      (elementContent single' element' opened) S.dirContent.list fun _ => S.Near .behind := by
  have hstrip (c c' : StaticContext) (h : c.Alike c') :
      (c'.boundarySpace == .strip) = (c.boundarySpace == .strip) := by rw [h.boundarySpace]
  refine .then (pairs_consult _ hstrip _) fun strip => ?_
  exact .shows (agree_iterate (fun _ _ => agree_elementContentStep h he strip opened) .nil) (by simp)

theorem agree_elementInFrame (h : S.Pairs S.expr single single')
    (he : ElementsAgree S element element')
    (opened : LexicalName) (ho : S.offset.like o o') :
    S.Agree False (S.Near .behind) (elementInFrame single element opened o)
      (elementInFrame single' element' opened o') S.expr fun _ => S.Near .behind := by
  have hattributes : S.Agree False (S.Near .behind) (iterate (tagAttributeStep single) ⟨[], []⟩)
      (iterate (tagAttributeStep single') ⟨[], []⟩) S.tagAttributes fun _ => S.Near .behind :=
    .shows (agree_iterate (fun _ _ => agree_tagAttributeStep h) rfl) (by simp)
  refine .andThen hattributes ?_
  rintro ⟨raw, namespaces⟩ ⟨raw', _⟩ htag
  obtain ⟨hraw, rfl⟩ := TagAttributes.mk.inj htag
  refine .then (pairs_elementName ho opened _) fun name => ?_
  refine .andThen (pairs_resolveAttributes [] (like_of_map hraw) _) fun attributes attributes' ha => ?_
  have hnode {content content' : List (DirContent Expr)} (hc : S.dirContent.list.like content content')
      (selfClosing : Bool) : S.Agree (S.dirAttribute.list.owes attributes ∨ S.dirContent.list.owes content)
      (S.Near .behind)
      (node (.dirElement ⟨name, attributes, namespaces, content, selfClosing⟩) o)
      (node (.dirElement ⟨name, attributes', namespaces, content', selfClosing⟩) o') S.expr
      fun _ => S.Near .behind := by
    refine agree_node ?_ ho (by simp [owes_kind, ExprKind.belongsTo, ExprKind.children,
      DirElement.children])
    exact congrArg ExprKind.dirElement (congrArg₂ (DirElement.mk name · namespaces · selfClosing)
      (map_of_like ha) (map_of_like hc))
  refine agree_ifEat S.core_kept ((hnode .nil true).shows (by simp)) (agree_unlessEat S.core_kept ?_ ?_)
  · exact .then (Q := fun _ => S.Near .behind) (agree_unexpected _) fun _ =>
      .bind (agree_elementContent h he opened) fun content content' hc => hnode hc false
  · exact .bind (agree_elementContent h he opened) fun content content' hc => hnode hc false

theorem elementsAgree_dirElementWithin (h : S.Pairs S.expr single single') {n n' : Nat}
    (hn : S.rounds.like n n') :
    ElementsAgree S (dirElementWithin single n) (dirElementWithin single' n') := by
  induction n generalizing n' with
  | zero => exact fun o o' ho => .settle (t := .behind) (agree_zero (dirElementWithin single' · o') hn rfl)
  | succ n ih =>
    obtain ⟨m, rfl, hm⟩ := rounds_succ hn
    refine fun o o' ho => .then (agree_capturedQualifiedName 0) fun opened => ?_
    refine .settle (agree_nested (.then (pairs_amendAlike _ (fun _ _ h => h.pushFrame) .behind) fun _ => ?_))
    refine .andThen (agree_elementInFrame h (ih hm) opened ho) fun e e' he => ?_
    exact .then (pairs_amendAlike _ (fun _ _ h => h.popFrame) .behind) fun _ => .give he Iff.rfl

end

theorem elementsAgree_dirElement (h : S.Pairs S.expr single single') :
    ElementsAgree S (dirElement single) (dirElement single') :=
  fun o o' ho => .look (L := S.rounds) (fun _ _ h => rounds_like h.1) fun _ _ hn =>
    elementsAgree_dirElementWithin h hn o o' ho

theorem pairs_directConstructor (h : S.Pairs S.expr single single') :
    S.Pairs S.expr.option (directConstructor single) (directConstructor single') := by
  intro t
  have hfound {p p' : Parser Expr} (hp : S.Agree False (S.Fresh .behind) p p' S.expr fun _ => S.Near .behind) :
      S.Agree False (S.Fresh .behind) (p >>= fun e => pure (some e)) (p' >>= fun e => pure (some e))
        S.expr.option fun _ => S.Near t := .post (.found hp) fun _ _ _ h => h.behind
  refine agree_ifReads S.core_kept ?_ (agree_ifReads S.core_kept ?_ (agree_ifReads S.core_kept ?_ .absent))
  · exact .seq agree_start fun o o' ho => hfound (elementsAgree_dirElement h o o' ho)
  · exact .seq agree_start fun o o' ho => hfound (agree_dirComment ho).settle
  · exact .seq agree_start fun o o' ho => hfound (agree_dirPi ho)

end Grammar

end XQuerySyntax
