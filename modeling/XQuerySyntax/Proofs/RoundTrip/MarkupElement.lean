import XQuerySyntax.Proofs.RoundTrip.MarkupValue

/-! What stands in an element is read part by part. The character behind the bracket of a markup part
tells which part it is; where there is no bracket, text is tried before an enclosed variable. -/

namespace XQuerySyntax

open XQuerySyntax.Parser Grammar Terminal

variable {f : Frame} {l l₁ : Place} {saved : List LexicalState} {text rest : List Char}
  {n : SimpleName} {k : Nat} {single : Parser Expr} {element : Nat → Parser Expr}

/-! ### Parts of content -/

/-- The parser reads a part of the content, with these parts in front of it. -/
def ReadsPart (f : Frame) (saved : List LexicalState) (text rest : List Char)
    (step : List (DirContent Expr) → Parser (List (DirContent Expr) ⊕ List (DirContent Expr)))
    (parts : List (DirContent Expr)) (P : DirContent Expr → Prop) : Prop :=
  Reads f (.at text ⟨.content, saved⟩) (step parts)
    (fun o => ∃ all, o = .inl all ∧ ∃ part, all = parts ++ [part] ∧ P part)
    (.at rest ⟨.content, saved⟩)

theorem declines_markup (h : ∀ c ∈ text.head?, c ≠ '<') : ∀ r ∈ markupRules, Declines .content text r :=
  fun r hr => declines_of_view (List.all_eq_true.1 textView_decline r hr) h

theorem reads_nestedNode_declined (h : ∀ r ∈ markupRules, Declines .content text r) :
    Reads f (.at text ⟨.content, saved⟩) (nestedNode element) (fun o => o = none)
      (.at text ⟨.content, saved⟩) := by
  apply reads_ifEat_declined (h nestedElementOpen (by simp [markupRules]))
  apply reads_ifEat_declined (h cdataOpen (by simp [markupRules]))
  apply reads_ifEat_declined (h nestedCommentOpen (by simp [markupRules]))
  apply reads_ifEat_declined (h nestedPiOpen (by simp [markupRules]))
  exact reads_pure rfl

variable {parts : List (DirContent Expr)} {opened : LexicalName} {P : DirContent Expr → Prop}

/-- A node in front is the next part. -/
theorem readsPart_node (hend : Declines .content text endTag)
    (hnode : Reads f (.at text ⟨.content, saved⟩) (nestedNode element)
      (fun o => ∃ part, o = some part ∧ P part) (.at rest ⟨.content, saved⟩)) :
    ReadsPart f saved text rest (elementContentStep single element false opened) parts P := by
  apply reads_ifEat_declined hend
  refine reads_bind hnode fun o ho => ?_
  obtain ⟨part, rfl, hpart⟩ := ho
  exact reads_pure ⟨_, rfl, part, rfl, hpart⟩

theorem addText_eq (text : String) (h : ∀ text, parts.getLast? ≠ some (.text text)) :
    DirContent.addText parts text = parts ++ [DirContent.text text] := by
  unfold DirContent.addText
  split
  · rename_i last hlast
    exact absurd hlast (h last)
  · rfl

theorem readsPart_text {chars body : List Char} (hne : chars ≠ []) (hbody : MarkupBody none chars body)
    (hrest : EndsText none rest) (hjoins : ∀ text, parts.getLast? ≠ some (.text text)) :
    ReadsPart f saved (body ++ rest) rest (elementContentStep single element false opened) parts
      (fun part => part = .text (String.ofList chars)) := by
  have hdecline : ∀ r ∈ markupRules, Declines .content (body ++ rest) r := by
    apply declines_markup
    obtain ⟨c, body', rfl⟩ := List.exists_cons_of_ne_nil (hbody.ne_nil hne)
    have hfirst := hbody.head_ne (.inl rfl)
    exact hfirst
  obtain ⟨boundary, hscan⟩ := scanMarkupText_append (.inl rfl) hbody hne hrest
  apply reads_ifEat_declined (hdecline endTag (by simp [markupRules]))
  refine reads_bind (reads_nestedNode_declined hdecline) fun o ho => ?_
  rw [ho]
  refine reads_bind (reads_lexeme hscan) fun o ho => ?_
  rw [ho]
  exact reads_pure ⟨_, rfl, _, addText_eq _ hjoins, rfl⟩

theorem readsPart_enclosed (hk : 1 ≤ k) (hdepth : f.depth + 1 ≤ f.maxDepth)
    (hsize : ('\x7b' :: '$' :: (n.chars ++ '\x7d' :: rest)).length ≤ f.size) :
    ReadsPart f saved ('\x7b' :: '$' :: (n.chars ++ '\x7d' :: rest)) rest
      (elementContentStep (singleWithin k) element false opened) parts
      (fun part => ∃ e, part = .enclosed e ∧ n.DenotesVariable f.module e) := by
  have hdecline : ∀ r ∈ markupRules,
      Declines .content ('\x7b' :: '$' :: (n.chars ++ '\x7d' :: rest)) r := by
    apply declines_markup
    rintro _ ⟨⟩
    decide
  have habsent := scanMarkupText_absent (endsText_enclosed (.inl rfl) (n.chars ++ '\x7d' :: rest))
  have hopen : Takes .content ('\x7b' :: '$' :: (n.chars ++ '\x7d' :: rest)) enclosedOpen
      ('$' :: (n.chars ++ '\x7d' :: rest)) [] := takes_mark "\x7b" (by rfl) _
  have hcontent : Reads f (.before (.content :: saved) ('$' :: (n.chars ++ '\x7d' :: rest)))
      (enclosedContent (singleWithin k)) (n.DenotesVariable f.module)
      (.at rest ⟨.content, saved⟩) := reads_enclosedContent hk hdepth (Nat.le_of_succ_le hsize)
  apply reads_ifEat_declined (hdecline endTag (by simp [markupRules]))
  refine reads_bind (reads_nestedNode_declined hdecline) fun o ho => ?_
  rw [ho]
  refine reads_bind (reads_lexeme_absent habsent) fun o ho => ?_
  rw [ho]
  apply reads_ifEat hopen
  refine reads_bind (reads_forget hcontent) fun e he => ?_
  exact reads_pure ⟨_, rfl, _, rfl, e, rfl, he⟩

/-- Behind an exclamation mark there is no tag. -/
theorem declines_exclamation {r : Rule} (h : r ∈ [endTag, nestedElementOpen]) (rest : List Char) :
    Declines .content ('<' :: '!' :: rest) r :=
  declines_char (List.all_eq_true.1 markupViews_decline.2.1 r h) ⟨rest, rfl, trivial⟩

theorem readsPart_literalSection {chars : List Char} (h : ¬"]]>".toList <:+: chars) (rest : List Char) :
    ReadsPart f saved ("<![CDATA[".toList ++ (chars ++ ("]]>".toList ++ rest))) rest
      (elementContentStep single element false opened) parts
      (fun part => part = .literalSection (String.ofList chars)) := by
  have hscan := scanLiteralSection_append h rest
  have hopen := takes_literalSection (chars ++ ("]]>".toList ++ rest))
  have hspelling : "<![CDATA[".toList = '<' :: '!' :: "[CDATA[".toList := by rfl
  rw [hspelling] at hopen ⊢
  apply readsPart_node (declines_exclamation (by simp) _)
  apply reads_ifEat_declined (declines_exclamation (by simp) _)
  apply reads_ifEat hopen
  refine reads_bind (reads_lexeme hscan) fun body hbody => ?_
  rw [hbody]
  exact reads_pure ⟨_, rfl, rfl⟩

theorem readsPart_comment {chars : List Char} (h : ¬"--".toList <:+: chars)
    (hlast : chars.getLast? ≠ some '-') (rest : List Char) :
    ReadsPart f saved ("<!--".toList ++ (chars ++ ("-->".toList ++ rest))) rest
      (elementContentStep single element false opened) parts
      (fun part => ∃ offset,
        part = .node (.mk (.dirComment (String.ofList chars)) offset f.module)) := by
  have hscan := scanMarkupComment_append h hlast rest
  generalize chars ++ ("-->".toList ++ rest) = inside at hscan ⊢
  have hsection : Declines .content ("<!--".toList ++ inside) cdataOpen :=
    declines_char markupViews_decline.2.2.1 ⟨_, rfl, _, rfl, trivial⟩
  have hopen : Takes .content ("<!--".toList ++ inside) nestedCommentOpen inside [] :=
    takes_mark "<!--" (by rfl) inside
  apply readsPart_node (declines_exclamation (by simp) _)
  apply reads_ifEat_declined (declines_exclamation (by simp) _)
  apply reads_ifEat_declined hsection
  apply reads_ifEat hopen
  refine reads_bind reads_start fun offset _ => ?_
  have hcomment : Reads f (.at inside ⟨.content, saved⟩) (dirComment offset)
      (fun e => e = .mk (.dirComment (String.ofList chars)) offset f.module)
      (.at rest ⟨.content, saved⟩) := by
    refine reads_bind (reads_lexeme hscan) fun body hbody => ?_
    rw [hbody]
    exact reads_node _ offset
  refine reads_bind (reads_forget hcomment) fun e he => ?_
  exact reads_pure ⟨_, rfl, offset, congrArg DirContent.node he⟩

theorem readsPart_instruction {target : SimpleName} {blanks chars : List Char}
    (hname : target.chars.map Char.toLower ≠ "xml".toList) (hblanks : ∀ c ∈ blanks, isBlank c)
    (hsome : chars ≠ [] → blanks ≠ []) (h : ¬"?>".toList <:+: chars) (hfirst : ∀ c ∈ chars.head?, isBlank c = false) (rest : List Char) :
    ReadsPart f saved
      ("<?".toList ++ (target.chars ++ (blanks ++ (chars ++ ("?>".toList ++ rest))))) rest
      (elementContentStep single element false opened) parts
      (fun part => ∃ offset,
        part = .node (.mk (.dirPi target.text (String.ofList chars)) offset f.module)) := by
  have hscan := scanDelimited_append hblanks hsome h hfirst rest
  have hother : ¬target.text.toList.map Char.toLower = "xml".toList := by
    rw [SimpleName.text, String.toList_ofList]
    exact hname
  have hends : endsName (blanks ++ (chars ++ ("?>".toList ++ rest))) := by
    cases blanks with
    | nil =>
      have hnil : chars = [] := Classical.byContradiction fun hne => hsome hne rfl
      subst hnil
      rintro _ ⟨⟩
      decide
    | cons c blanks =>
      rintro _ ⟨⟩
      exact isNameChar_eq_false_of_isBlank (hblanks c List.mem_cons_self)
  generalize blanks ++ (chars ++ ("?>".toList ++ rest)) = inside at hscan hends ⊢
  have hdecline : ∀ r ∈ [endTag, nestedElementOpen, cdataOpen, nestedCommentOpen],
      Declines .content ("<?".toList ++ (target.chars ++ inside)) r := fun r hr =>
    declines_char (List.all_eq_true.1 markupViews_decline.2.2.2 r hr) ⟨_, rfl, trivial⟩
  apply readsPart_node (hdecline endTag (by simp))
  apply reads_ifEat_declined (hdecline nestedElementOpen (by simp))
  apply reads_ifEat_declined (hdecline cdataOpen (by simp))
  apply reads_ifEat_declined (hdecline nestedCommentOpen (by simp))
  apply reads_ifEat (takes_instruction hends)
  refine reads_bind reads_start fun offset _ => ?_
  have hinstruction : Reads f ⟨inside, ⟨.content, saved⟩, some [.name target.text]⟩ (dirPi offset)
      (fun e => e = .mk (.dirPi target.text (String.ofList chars)) offset f.module)
      (.at rest ⟨.content, saved⟩) := by
    refine reads_bind (reads_captured fun captures => captures.name 0) fun name hname => ?_
    have hname' : name = target.text := hname
    rw [hname', if_neg hother]
    refine reads_bind (reads_forget (reads_lexeme hscan)) fun body hbody => ?_
    rw [hbody]
    exact reads_node _ offset
  refine reads_bind hinstruction fun e he => ?_
  exact reads_pure ⟨_, rfl, offset, congrArg DirContent.node he⟩

end XQuerySyntax

/-! ### Elements

Elements are read with all that stands in them. Each tree makes the text shorter, so the length of
the text bounds the steps of every loop and the elements inside one another. -/

namespace XQuerySyntax

open XQuerySyntax.Parser Grammar Terminal

section

variable {f : Frame} {l l₁ : Place} {n : SimpleName} {single : Parser Expr}

/-! ### One element inside another -/

/-- The namespaces that are bound inside go out of scope. -/
theorem reads_inFrame {p : Parser Expr} {P : Expr → Prop}
    (h : Reads { f with context := f.context.pushFrame } l p P l₁) :
    Reads f l (do
      amend StaticContext.pushFrame
      let e ← p
      amend StaticContext.popFrame
      return e) P l₁ := by
  intro s hs
  let inner : ParserState := { s with context := s.context.pushFrame }
  have hframe : s.frame = f := hs.frame
  have hinner : inner.At { f with context := f.context.pushFrame } l :=
    ⟨by rw [← hframe]; rfl, hs.rest, hs.stack, hs.caught⟩
  obtain ⟨e, s₁, hp, he, hs₁⟩ := h inner hinner
  refine ⟨e, { s₁ with context := s₁.context.popFrame }, ?_, he, ?_, hs₁.rest, hs₁.stack, hs₁.caught⟩
  · change EStateM.bind p _ inner = _
    unfold EStateM.bind
    rw [hp]
    rfl
  · have hframe₁ : s₁.frame = { f with context := f.context.pushFrame } := hs₁.frame
    exact congrArg (fun g : Frame => { g with context := g.context.popFrame }) hframe₁

/-- What the parser is given inside an element. -/
def Frame.inside (f : Frame) : Frame :=
  { f with context := f.context.pushFrame, depth := f.depth + 1 }

/-- An element behind its name is read one level deeper, and with its own namespaces. -/
theorem reads_dirElementWithin {tag : List Char} {stack : StateStack} {offset fuel : Nat}
    {P : Expr → Prop} (hdepth : f.depth < f.maxDepth)
    (h : Reads f.inside (.at tag stack)
      (elementInFrame single (dirElementWithin single fuel) ⟨none, n.text⟩ offset) P l) :
    Reads f ⟨tag, stack, some [.qualifiedName ⟨none, n.text⟩]⟩
      (dirElementWithin single (fuel + 1) offset) P l := by
  refine reads_bind (reads_captured fun captures => captures.qualifiedName 0) fun name hname => ?_
  have hname' : name = ⟨none, n.text⟩ := hname
  rw [hname']
  apply reads_forget
  apply reads_nested hdepth
  exact reads_inFrame h

/-- The steps that the text allows are the levels of elements inside one another. -/
theorem reads_dirElement {offset : Nat} {P : Expr → Prop}
    (h : Reads f l (dirElementWithin single (f.size + 1) offset) P l₁) :
    Reads f l (dirElement single offset) P l₁ := by
  intro s hs
  have hsteps : s.steps = f.size + 1 := by
    rw [← hs.frame]
    rfl
  have hread := h s hs
  rw [← hsteps] at hread
  exact hread

end

namespace MarkupTree

variable {f : Frame} {saved : List LexicalState} {state : LexicalState} {text tag rest : List Char}
  {n : SimpleName} {k fuel : Nat} {single : Parser Expr} {t : MarkupTree} {ts : List MarkupTree}
  {attributes : List MarkupAttribute} {parts : List (DirContent Expr)} {module : ModuleId}
  {namespace? : Option String}

/-! ### Lengths and ends -/

theorem length_le (h : ∀ t ∈ ts, ∀ text rest, t.Writes text rest → rest.length < text.length)
    (htext : WritesAll ts text rest) : rest.length ≤ text.length := by
  induction ts generalizing text with
  | nil =>
    obtain rfl := htext
    exact Nat.le_refl _
  | cons t ts ih =>
    obtain ⟨mid, ht, hmore⟩ := htext
    have hlt := h t List.mem_cons_self text mid ht
    have hle := ih (fun t' ht' => h t' (List.mem_cons_of_mem t ht')) hmore
    omega

/-- Every tree makes the text shorter. -/
theorem length_lt (t : MarkupTree) (text rest : List Char) (h : t.Writes text rest) :
    rest.length < text.length := by
  match t, h with
  | .text chars hne, ⟨body, hbody, htext⟩ =>
    have hsome := List.length_pos_iff.2 (hbody.ne_nil hne)
    rw [htext, List.length_append]
    omega
  | enclosed n, htext =>
    cases htext
    simp only [List.length_cons, List.length_append]
    omega
  | literalSection chars _, htext | comment chars _ _, htext =>
    cases htext
    simp only [List.length_append]
    have hopen : 0 < "<![CDATA[".toList.length ∧ 0 < "<!--".toList.length := by decide
    omega
  | instruction target _ chars _ _, ⟨blanks, _, _, htext⟩ =>
    have hopen : 0 < "<?".toList.length := by decide
    rw [htext]
    simp only [List.length_append]
    omega
  | emptyElement n attributes, ⟨tag, htext, htag⟩ =>
    have hle := MarkupAttribute.length_le htag
    rw [htext]
    simp only [List.length_cons, List.length_append] at hle ⊢
    omega
  | element n attributes content, ⟨tag, inside, htext, htag, hinside⟩ =>
    have hle := MarkupAttribute.length_le htag
    have hcontent := length_le (fun t ht => length_lt t) hinside
    rw [htext]
    simp only [List.length_cons, List.length_append] at hle hcontent ⊢
    omega

/-- Text ends where no text comes next. -/
theorem endsText (h : WritesAll ts text ('<' :: rest)) (hnext : ∀ t ∈ ts.head?, t.isText = false) :
    EndsText none text := by
  have hmarkup (opening inside : List Char) (h : opening.head? = some '<') :
      EndsText none (opening ++ inside) := by
    obtain ⟨opening, rfl⟩ := List.head?_eq_some_iff.1 h
    exact endsText_markup _
  cases ts with
  | nil =>
    obtain rfl := h
    exact endsText_markup rest
  | cons t ts =>
    obtain ⟨mid, ht, -⟩ := h
    cases t with
    | text chars hne => cases hnext _ rfl
    | enclosed n =>
      obtain rfl := ht
      exact endsText_enclosed (.inl rfl) _
    | literalSection chars _ =>
      obtain rfl := ht
      exact hmarkup "<![CDATA[".toList _ (by rfl)
    | comment chars _ _ =>
      obtain rfl := ht
      exact hmarkup "<!--".toList _ (by rfl)
    | instruction target _ chars _ _ =>
      obtain ⟨blanks, -, -, rfl⟩ := ht
      exact hmarkup "<?".toList _ (by rfl)
    | emptyElement n attributes =>
      obtain ⟨tag, rfl, -⟩ := ht
      exact endsText_markup _
    | element n attributes content =>
      obtain ⟨tag, inside, rfl, -⟩ := ht
      exact endsText_markup _

theorem isText_of_denotes {value : String} (h : t.Denotes namespace? module (.text value)) :
    t.isText := by
  cases t with
  | text => rfl
  | enclosed n =>
    obtain ⟨e, he, -⟩ := h
    cases he
  | literalSection => cases h
  | comment | instruction =>
    obtain ⟨offset, he⟩ := h
    cases he
  | emptyElement n attributes =>
    obtain ⟨offset, parsed, he, -⟩ := h
    cases he
  | element n attributes content =>
    obtain ⟨offset, parsed, parts, he, -⟩ := h
    cases he

theorem AllWellFormed.of_mem (h : AllWellFormed ts) (ht : t ∈ ts) : t.WellFormed := by
  induction ts with
  | nil => cases ht
  | cons t' ts ih =>
    rcases List.mem_cons.1 ht with rfl | ht
    · exact h.1
    · exact ih h.2 ht

/-! ### Content -/

/-- The trees may come behind the parts: no text is joined to another. -/
def Joins (parts : List (DirContent Expr)) (ts : List MarkupTree) : Prop :=
  ∀ t ∈ ts.head?, t.isText → ∀ value, parts.getLast? ≠ some (.text value)

/-- Wherever the tree stands in an element, it is read as the next part of the content. Behind text
comes none, and in front of it neither. -/
def ReadsNext (t : MarkupTree) : Prop :=
  ∀ ⦃k fuel : Nat⦄ ⦃f : Frame⦄ ⦃saved : List LexicalState⦄ ⦃text rest : List Char⦄
    ⦃opened : LexicalName⦄ ⦃parts : List (DirContent Expr)⦄,
    1 ≤ k → f.depth + t.levels ≤ f.maxDepth → f.context.boundarySpace = .preserve →
      text.length ≤ f.size → text.length ≤ fuel → t.Writes text rest →
        (t.isText → EndsText none rest) → Joins parts [t] →
          ReadsPart f saved text rest
            (elementContentStep (singleWithin k) (dirElementWithin (singleWithin k) fuel) false opened)
            parts (t.Denotes f.context.elementNamespace? f.module)

/-- The end tag ends the content. -/
theorem reads_endTag {element : Nat → Parser Expr} (parts : List (DirContent Expr)) :
    Reads f (.at ('<' :: '/' :: (n.chars ++ '>' :: rest)) ⟨.content, state :: saved⟩)
      (elementContentStep single element false ⟨none, n.text⟩ parts)
      (fun o => ∃ all, o = .inr all ∧ all = parts) (.at rest ⟨state, saved⟩) := by
  have hmatch : Reads f ⟨rest, ⟨state, saved⟩, some [.qualifiedName ⟨none, n.text⟩]⟩
      (checkEndTag ⟨none, n.text⟩) (fun _ => True)
      ⟨rest, ⟨state, saved⟩, some [.qualifiedName ⟨none, n.text⟩]⟩ := by
    refine reads_bind (reads_captured fun captures => captures.qualifiedName 0) fun name hname => ?_
    have hname' : name = ⟨none, n.text⟩ := hname
    rw [if_neg (not_not_intro hname')]
    exact reads_pure trivial
  apply reads_ifEat (takes_endTag rest)
  refine reads_bind hmatch fun _ _ => ?_
  exact reads_forget (reads_pure ⟨parts, rfl, rfl⟩)

theorem joins_next {part : DirContent Expr} (hpart : t.Denotes namespace? module part)
    (hnext : ∀ t' ∈ ts.head?, t.isText → t'.isText = false) : Joins (parts ++ [part]) ts := by
  intro t' ht' htext value hlast
  rw [List.getLast?_concat] at hlast
  obtain rfl := Option.some.inj hlast
  have hother := hnext t' ht' (isText_of_denotes hpart)
  rw [htext] at hother
  cases hother

/-- The trees are read one by one, and then the end tag. -/
theorem reads_content (h : ∀ t ∈ ts, t.ReadsNext) (hk : 1 ≤ k)
    (hdepth : f.depth + levelsOfAll ts ≤ f.maxDepth) (hspace : f.context.boundarySpace = .preserve)
    (hsize : text.length ≤ f.size) {deep : Nat} (hdeep : text.length ≤ deep)
    (htext : WritesAll ts text ('<' :: '/' :: (n.chars ++ '>' :: rest)))
    (hapart : Apart isText ts) (hjoins : Joins parts ts) (hfuel : text.length ≤ fuel) :
    Reads f (.at text ⟨.content, state :: saved⟩)
      (iterateWithin (elementContentStep (singleWithin k) (dirElementWithin (singleWithin k) deep)
        false ⟨none, n.text⟩) fuel parts)
      (fun all => ∃ new, all = parts ++ new ∧
        DenotesAll f.context.elementNamespace? f.module ts new)
      (.at rest ⟨state, saved⟩) := by
  induction ts generalizing text parts fuel with
  | nil =>
    obtain rfl := htext
    obtain ⟨fuel, rfl⟩ := Nat.exists_eq_add_of_lt (Nat.lt_of_lt_of_le (Nat.succ_pos _) hfuel)
    rw [Nat.zero_add]
    apply reads_iterateWithin_done
    refine reads_weaken (reads_endTag parts) fun o ho => ?_
    obtain ⟨all, rfl, rfl⟩ := ho
    exact ⟨_, rfl, [], (List.append_nil _).symm, rfl⟩
  | cons t ts ih =>
    obtain ⟨mid, ht, hmore⟩ := htext
    obtain ⟨hapart, hnext⟩ := ValuePiece.apart_tail hapart
    have hlt := length_lt t text mid ht
    obtain ⟨fuel, rfl⟩ := Nat.exists_eq_add_of_lt (Nat.lt_of_lt_of_le (Nat.zero_lt_of_lt hlt) hfuel)
    rw [Nat.zero_add] at hfuel ⊢
    have hlevels : levelsOfAll (t :: ts) = max t.levels (levelsOfAll ts) := rfl
    have hends (htext : t.isText) : EndsText none mid :=
      endsText hmore fun t' ht' => hnext t' ht' htext
    have hread : ReadsPart f (state :: saved) text mid
        (elementContentStep (singleWithin k) (dirElementWithin (singleWithin k) deep) false
          ⟨none, n.text⟩) parts (t.Denotes f.context.elementNamespace? f.module) :=
      h t List.mem_cons_self hk (by omega) hspace hsize hdeep ht hends hjoins
    refine reads_iterateWithin_next hread fun all hall => ?_
    obtain ⟨part, rfl, hpart⟩ := hall
    have hjoins' : Joins (parts ++ [part]) ts := joins_next hpart hnext
    have hmem : ∀ t' ∈ ts, t'.ReadsNext := fun t' ht' => h t' (List.mem_cons_of_mem t ht')
    refine reads_weaken (ih hmem (by omega) (by omega) (by omega) hmore hapart hjoins' (by omega))
      fun all hall => ?_
    obtain ⟨new, rfl, hnew⟩ := hall
    exact ⟨part :: new, by rw [List.append_assoc]; rfl, part, new, rfl, hpart, hnew⟩

/-! ### Elements -/

/-- The element is read behind its name, wherever it stands. -/
def ReadsElement (t : MarkupTree) : Prop :=
  ∀ ⦃k fuel : Nat⦄ ⦃f : Frame⦄ (state : LexicalState) (saved : List LexicalState)
    ⦃text rest : List Char⦄,
    1 ≤ k → f.depth + t.levels ≤ f.maxDepth → f.context.boundarySpace = .preserve →
      text.length ≤ f.size → text.length ≤ fuel → t.Writes text rest →
        ∃ (n : SimpleName) (tag : List Char), text = '<' :: (n.chars ++ tag) ∧ EndsTagName tag ∧
          ∀ offset : Nat, Reads f ⟨tag, ⟨.tag, state :: saved⟩, some [.qualifiedName ⟨none, n.text⟩]⟩
            (dirElementWithin (singleWithin k) fuel offset)
            (fun e => t.Denotes f.context.elementNamespace? f.module (.node e))
            (.at rest ⟨state, saved⟩)

/-- An element behind the attributes of its start tag. -/
def behindAttributes (single : Parser Expr) (element : Nat → Parser Expr) (opened : LexicalName)
    (offset : Nat) (name : QName) (attributes : List (DirAttribute Expr))
    (namespaces : List NamespaceBinding) : Parser Expr := do
  if ← eat emptyTagClose then
    return ← node (.dirElement ⟨name, attributes, namespaces, [], true⟩) offset
  if !(← eat startTagClose) then
    unexpected "an attribute, '>' or '/>'"
  let content ← elementContent single element opened
  node (.dirElement ⟨name, attributes, namespaces, content, false⟩) offset

/-- The name of an element and its attributes are read up to the end of the tag. -/
theorem reads_elementInFrame {element : Nat → Parser Expr} {P : Expr → Prop} {close : List Char}
    {l : Place} {offset : Nat} (hk : 1 ≤ k)
    (hdepth : f.depth + largest (attributes.map MarkupAttribute.levels) ≤ f.maxDepth)
    (hsize : tag.length ≤ f.size) (htag : MarkupAttribute.WritesAll attributes tag close)
    (hclose : ∃ rest, close = '>' :: rest ∨ close = '/' :: rest)
    (hnext : ∀ parsed, OneByOne (MarkupAttribute.Denotes f.module) attributes parsed →
      Reads f (.at close ⟨.tag, saved⟩) (behindAttributes (singleWithin k) element ⟨none, n.text⟩
        offset ⟨none, n.text, f.context.elementNamespace?⟩ parsed []) P l) :
    Reads f (.at tag ⟨.tag, saved⟩)
      (elementInFrame (singleWithin k) element ⟨none, n.text⟩ offset) P l := by
  have hname : Reads f (.at close ⟨.tag, saved⟩) (elementName ⟨none, n.text⟩ offset)
      (fun name => name = ⟨none, n.text, f.context.elementNamespace?⟩) (.at close ⟨.tag, saved⟩) := by
    refine reads_bind (reads_consult (·.elementNamespace?)) fun namespace? hnamespace => ?_
    rw [hnamespace]
    exact reads_pure rfl
  have hattributes : Reads f (.at tag ⟨.tag, saved⟩)
      (iterateWithin (tagAttributeStep (singleWithin k)) (f.size + 1) ⟨[], []⟩)
      (MarkupAttribute.Joined f.module ⟨[], []⟩ attributes) (.at close ⟨.tag, saved⟩) :=
    MarkupAttribute.reads_attributes hk hdepth hsize htag hclose _ (Nat.le_succ_of_le hsize)
  refine reads_bind (reads_iterate hattributes) fun all hall => ?_
  obtain ⟨hnamespaces, raws, hraw, hraws⟩ := hall
  refine reads_bind hname fun name hname => ?_
  have hresolved : Reads f (.at close ⟨.tag, saved⟩) (resolveAttributes [] all.raw)
      (OneByOne (MarkupAttribute.Denotes f.module) attributes) (.at close ⟨.tag, saved⟩) := by
    rw [hraw]
    exact MarkupAttribute.reads_resolved hraws []
  refine reads_bind hresolved fun parsed hparsed => ?_
  rw [hname, hnamespaces]
  exact hnext parsed hparsed

theorem endsTagName {close : List Char} (h : MarkupAttribute.WritesAll attributes tag close)
    (hclose : ∃ rest, close = '>' :: rest ∨ close = '/' :: rest) : EndsTagName tag := by
  have hends : ∀ c ∈ close.head?, c = '>' ∨ c = '/' := by
    obtain ⟨rest, rfl | rfl⟩ := hclose
    · rintro _ ⟨⟩
      exact .inl rfl
    · rintro _ ⟨⟩
      exact .inr rfl
  intro c hc
  rcases MarkupAttribute.behind_attributes h hends c hc with hblank | hclose | hslash
  · exact .inl hblank
  · exact .inr (.inl hclose)
  · exact .inr (.inr (.inl hslash))

theorem readsElement_empty (n : SimpleName) (attributes : List MarkupAttribute) :
    (emptyElement n attributes).ReadsElement := by
  intro k fuel f state saved text rest hk hdepth _ hsize hfuel htext
  obtain ⟨tag, rfl, htag⟩ := htext
  have hclose : ∃ rest', '/' :: '>' :: rest = '>' :: rest' ∨ '/' :: '>' :: rest = '/' :: rest' :=
    ⟨_, .inr rfl⟩
  have hlevels : (emptyElement n attributes).levels =
      largest (attributes.map MarkupAttribute.levels) + 1 := rfl
  simp only [List.length_cons, List.length_append] at hsize hfuel
  obtain ⟨fuel, rfl⟩ : ∃ m, fuel = m + 1 := ⟨fuel - 1, by omega⟩
  have htake : Takes .tag ('/' :: '>' :: rest) emptyTagClose rest [] :=
    takes_mark "/>" (by rfl) rest
  refine ⟨n, tag, rfl, endsTagName htag hclose, fun offset => ?_⟩
  apply reads_dirElementWithin (by omega)
  have hdepth' : f.inside.depth + largest (attributes.map MarkupAttribute.levels) ≤
      f.inside.maxDepth := by
    change f.depth + 1 + _ ≤ f.maxDepth
    omega
  have hsize' : tag.length ≤ f.inside.size := by
    change tag.length ≤ f.size
    omega
  apply reads_elementInFrame hk hdepth' hsize' htag hclose
  intro parsed hparsed
  apply reads_ifEat htake
  refine reads_weaken (reads_forget (reads_node _ offset)) fun e he => ?_
  exact ⟨offset, parsed, congrArg DirContent.node he, hparsed⟩

theorem readsElement_content {content : List MarkupTree} (h : ∀ t ∈ content, t.ReadsNext)
    (hapart : Apart isText content) : (element n attributes content).ReadsElement := by
  intro k fuel f state saved text rest hk hdepth hspace hsize hfuel htext
  obtain ⟨tag, inside, rfl, htag, hinside⟩ := htext
  have hclose : ∃ rest', '>' :: inside = '>' :: rest' ∨ '>' :: inside = '/' :: rest' :=
    ⟨_, .inl rfl⟩
  have hlevels : (element n attributes content).levels =
      max (largest (attributes.map MarkupAttribute.levels)) (levelsOfAll content) + 1 := rfl
  have hlength := MarkupAttribute.length_le htag
  simp only [List.length_cons, List.length_append] at hsize hfuel hlength
  obtain ⟨fuel, rfl⟩ : ∃ m, fuel = m + 1 := ⟨fuel - 1, by omega⟩
  have hempty : Declines .tag ('>' :: inside) emptyTagClose :=
    declines_char tagViews_decline.2.2.1 trivial
  have htake : Takes .tag ('>' :: inside) startTagClose inside [] :=
    takes_mark ">" (by rfl) inside
  have hdepth' : f.inside.depth + largest (attributes.map MarkupAttribute.levels) ≤
      f.inside.maxDepth := by
    change f.depth + 1 + _ ≤ f.maxDepth
    omega
  have hdepth'' : f.inside.depth + levelsOfAll content ≤ f.inside.maxDepth := by
    change f.depth + 1 + _ ≤ f.maxDepth
    omega
  have hsize' : tag.length ≤ f.inside.size := by
    change tag.length ≤ f.size
    omega
  have hjoins : Joins [] content := fun _ _ _ _ h => nomatch h
  have hread : Reads f.inside (.at inside ⟨.content, state :: saved⟩)
      (iterateWithin (elementContentStep (singleWithin k) (dirElementWithin (singleWithin k) fuel)
        false ⟨none, n.text⟩) (f.inside.size + 1) [])
      (fun all => ∃ new, all = [] ++ new ∧ DenotesAll f.context.elementNamespace? f.module content new)
      (.at rest ⟨state, saved⟩) :=
    reads_content h hk hdepth'' hspace (by omega) (by omega) hinside hapart hjoins (by omega)
  have hcontent : Reads f.inside (.at inside ⟨.content, state :: saved⟩)
      (elementContent (singleWithin k) (dirElementWithin (singleWithin k) fuel) ⟨none, n.text⟩)
      (DenotesAll f.context.elementNamespace? f.module content) (.at rest ⟨state, saved⟩) := by
    refine reads_bind (reads_consult (·.boundarySpace == .strip)) fun strip hstrip => ?_
    have hpreserve : f.inside.context.boundarySpace = .preserve := hspace
    rw [hstrip, hpreserve]
    refine reads_weaken (reads_iterate hread) fun all hall => ?_
    obtain ⟨new, rfl, hnew⟩ := hall
    exact hnew
  refine ⟨n, tag, rfl, endsTagName htag hclose, fun offset => ?_⟩
  apply reads_dirElementWithin (by omega)
  apply reads_elementInFrame hk hdepth' hsize' htag hclose
  intro parsed hparsed
  apply reads_ifEat_declined hempty
  refine reads_bind (reads_eat htake) fun b hb => ?_
  rw [hb]
  refine reads_bind (reads_forget hcontent) fun parts hparts => ?_
  refine reads_weaken (reads_node _ offset) fun e he => ?_
  exact ⟨offset, parsed, parts, congrArg DirContent.node he, hparsed, hparts⟩

/-- An element inside another is the next part of its content. -/
theorem ReadsElement.next (h : t.ReadsElement) : t.ReadsNext := by
  intro k fuel f saved text rest opened parts hk hdepth hspace hsize hfuel htext _ _
  obtain ⟨n, tag, rfl, hends, hread⟩ := h .content saved hk hdepth hspace hsize hfuel htext
  have hend : Declines .content ('<' :: (n.chars ++ tag)) endTag :=
    declines_char markupViews_decline.1 ⟨n.chars, tag, rfl, n.isName, hends.endsName, trivial⟩
  have htake : Takes .content ('<' :: (n.chars ++ tag)) nestedElementOpen tag
      [.qualifiedName ⟨none, n.text⟩] := takes_startTag hends (by decide)
  apply readsPart_node hend
  apply reads_ifEat htake
  refine reads_bind reads_start fun offset _ => ?_
  refine reads_bind (hread offset) fun e he => ?_
  exact reads_pure ⟨_, rfl, he⟩

/-! ### All trees -/

theorem readsNext_text (chars : List Char) (hne : chars ≠ []) :
    (MarkupTree.text chars hne).ReadsNext := by
  intro k fuel f saved text rest opened parts _ _ _ _ _ htext hends hjoins
  obtain ⟨body, hbody, rfl⟩ := htext
  exact readsPart_text hne hbody (hends rfl) (hjoins _ rfl rfl)

/-- Every tree is read as the next part of the content of an element. -/
theorem readsNext (t : MarkupTree) (h : t.WellFormed) : t.ReadsNext := by
  match t, h with
  | .text chars hne, _ => exact readsNext_text chars hne
  | enclosed n, _ =>
    intro k fuel f saved text rest opened parts hk hdepth _ hsize _ htext _ _
    cases htext
    exact readsPart_enclosed hk hdepth hsize
  | literalSection chars h, _ =>
    intro k fuel f saved text rest opened parts _ _ _ _ _ htext _ _
    cases htext
    exact readsPart_literalSection h rest
  | comment chars h hlast, _ =>
    intro k fuel f saved text rest opened parts _ _ _ _ _ htext _ _
    cases htext
    exact readsPart_comment h hlast rest
  | instruction target hname chars h hfirst, _ =>
    intro k fuel f saved text rest opened parts _ _ _ _ _ htext _ _
    obtain ⟨blanks, hblanks, hsome, rfl⟩ := htext
    exact readsPart_instruction hname hblanks hsome h hfirst rest
  | emptyElement n attributes, _ => exact (readsElement_empty n attributes).next
  | element n attributes content, h =>
    exact (readsElement_content (fun t ht => readsNext t (h.2.of_mem ht)) h.1).next

/-- Every element is read behind its name. -/
theorem readsElement (helement : t.isElement) (h : t.WellFormed) : t.ReadsElement := by
  cases t with
  | emptyElement n attributes => exact readsElement_empty n attributes
  | element n attributes content =>
    exact readsElement_content (fun t ht => readsNext t (h.2.of_mem ht)) h.1
  | _ => cases helement

end MarkupTree

end XQuerySyntax
