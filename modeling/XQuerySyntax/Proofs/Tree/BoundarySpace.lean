import XQuerySyntax.Proofs.Contract
import XQuerySyntax.Proofs.Rollback
import XQuerySyntax.Proofs.RoundTrip.MarkupScan
import XQuerySyntax.Proofs.Tree.Parse

/-! Blanks between markup. Content is read as a sequence of characters and parts. Where boundary space is
preserved the tree has all of it; where it is stripped the tree has all but the runs of literal blanks whose
two sides are an end of the content, a nested node, an enclosed expression or a literal section. A run beside
a literal section should stay, and does not. -/

namespace XQuerySyntax

open XQuerySyntax.Parser Grammar Terminal

/-! ### Content as it is written -/

/-- What element content is written of. -/
inductive ContentToken where
  /-- A character that stands for itself. -/
  | literal (c : Char)
  /-- A brace written twice, or a character written as a reference. -/
  | escaped (c : Char)
  /-- A nested node, an enclosed expression or a literal section. -/
  | part (p : DirContent Expr)

/-- The text is characters and then `rest`. -/
inductive WrittenText : List Char → List ContentToken → List Char → Prop where
  | nil (rest : List Char) : WrittenText rest [] rest
  | literal {text rest : List Char} {run : List ContentToken} (c : Char)
      (hc : c ≠ '<' ∧ c ≠ '&' ∧ c ≠ '\x7b' ∧ c ≠ '\x7d') (htext : WrittenText text run rest) :
      WrittenText (c :: text) (.literal c :: run) rest
  | brace {text rest : List Char} {run : List ContentToken} (c : Char) (hc : c = '\x7b' ∨ c = '\x7d')
      (htext : WrittenText text run rest) : WrittenText (c :: c :: text) (.escaped c :: run) rest
  | reference {reference text rest : List Char} {run : List ContentToken} (c : Char)
      (hc : scanReference reference = .found c text) (htext : WrittenText text run rest) :
      WrittenText reference (.escaped c :: run) rest

/-- The state with other captures of the last match. -/
def ParserState.recaptured (s : ParserState) (captures : Captures) : ParserState :=
  { s with scan := { s.scan with captures } }

/-- The content that begins in the first state is written of these tokens and ends in the second state. What
was captured before it does not matter. -/
inductive WrittenContent (single : Parser Expr) (element : Nat → Parser Expr) :
    ParserState → List ContentToken → ParserState → Prop where
  | nil (s : ParserState) : WrittenContent single element s [] s
  | text {s s' : ParserState} {run tokens : List ContentToken} {rest : List Char}
      (hrun : WrittenText s.scan.cursor.rest run rest)
      (h : WrittenContent single element { s with scan := s.scan.moveTo rest } tokens s') :
      WrittenContent single element s (run ++ tokens) s'
  | node {s s₁ s' : ParserState} {tokens : List ContentToken} {p : DirContent Expr}
      (hp : nestedNode element s = .ok (some p) s₁) (h : WrittenContent single element s₁ tokens s') :
      WrittenContent single element s (.part p :: tokens) s'
  | enclosed {s s₁ s₂ s' : ParserState} {tokens : List ContentToken} {e : Expr}
      (hopen : eat enclosedOpen s = .ok true s₁) (he : enclosedContent single s₁ = .ok e s₂)
      (h : WrittenContent single element s₂ tokens s') :
      WrittenContent single element s (.part (.enclosed e) :: tokens) s'
  | captured {s s' : ParserState} {tokens : List ContentToken} (captures : Captures)
      (h : WrittenContent single element (s.recaptured captures) tokens s') :
      WrittenContent single element s tokens s'

namespace ContentToken

/-- Whether the token is a blank that stands for itself. -/
def isBlank : ContentToken → Bool
  | literal c => XQuerySyntax.isBlank c
  | _ => false

/-- The character that the token stands for, if it is none of the parts. -/
def char? : ContentToken → Option Char
  | literal c | escaped c => some c
  | part _ => none

/-- Adds what the token stands for to the content, where characters join the text in front of them. -/
def addTo (content : List (DirContent Expr)) : ContentToken → List (DirContent Expr)
  | literal c | escaped c => DirContent.addText content (String.singleton c)
  | part p => content ++ [p]

/-- The content that tokens stand for. -/
def assemble (tokens : List ContentToken) : List (DirContent Expr) := tokens.foldl addTo []

/-- The token is a part of a kind. -/
def isPartOf (kind : DirContent Expr → Bool) : ContentToken → Bool
  | part p => kind p
  | _ => false

/-- Behind these tokens, the last of them first, and in front of those, a blank belongs to a run whose two
sides are an end of the content or a part of the kind. -/
def isBoundary (kind : DirContent Expr → Bool) (before after : List ContentToken) : Bool :=
  (before.find? fun t => !t.isBlank).all (isPartOf kind) && (after.find? fun t => !t.isBlank).all (isPartOf kind)

/-- The tokens without the runs of blanks whose two sides are an end of the content or a part of the kind,
behind other tokens, the last of them first. -/
def keptBehind (kind : DirContent Expr → Bool) : List ContentToken → List ContentToken → List ContentToken
  | _, [] => []
  | before, t :: after =>
    if t.isBlank && isBoundary kind before after then keptBehind kind (t :: before) after
    else t :: keptBehind kind (t :: before) after

/-- The tokens without the runs of blanks whose two sides are an end of the content or a part of the kind. -/
def kept (kind : DirContent Expr → Bool) (tokens : List ContentToken) : List ContentToken :=
  keptBehind kind [] tokens

end ContentToken

namespace DirContent

/-- Nested elements, comments and processing instructions, and enclosed expressions. -/
def isNodeOrEnclosed : DirContent Expr → Bool
  | node _ | enclosed _ => true
  | _ => false

/-- The literal sections. -/
def isLiteralSection : DirContent Expr → Bool
  | literalSection _ => true
  | _ => false

/-- All but text. -/
def isMarkup (p : DirContent Expr) : Bool := p.isNodeOrEnclosed || p.isLiteralSection

end DirContent

variable {single : Parser Expr} {element : Nat → Parser Expr} {s s' : ParserState} {text rest : List Char}
  {run tokens before after : List ContentToken} {content : List (DirContent Expr)}

/-! ### Text as tokens -/

theorem WrittenText.isText (h : WrittenText text run rest) : ∀ t ∈ run, t.char?.isSome := by
  induction h with
  | nil => nofun
  | literal c _ _ ih | brace c _ _ ih | reference c _ _ ih => exact List.forall_mem_cons.2 ⟨rfl, ih⟩

theorem found_of_map {α β : Type} {g : α → β} {scanned : Scanned α} {b : β}
    (h : scanned.map g = .found b rest) : ∃ a, scanned = .found a rest ∧ b = g a := by
  cases scanned with
  | found a rest' =>
    cases h
    exact ⟨a, rfl, rfl⟩
  | absent | faulty => cases h

/-- Text that is scanned is written of characters, up to where text ends. The induction is on the length of
the text. -/
theorem written_of_scanMarkupRun {text : List Char} {found : MarkupRun}
    (h : scanMarkupRun none text = .found found rest) :
    ∃ run, WrittenText text run rest ∧ run.filterMap ContentToken.char? = found.chars ∧
      run.all ContentToken.isBlank = found.boundary ∧ EndsText none rest := by
  have hends : ∀ found : MarkupRun, scanMarkupRun none text = .found found rest → rest = text →
      found = .empty → ∃ run, WrittenText text run rest ∧ run.filterMap ContentToken.char? = found.chars ∧
        run.all ContentToken.isBlank = found.boundary ∧ EndsText none rest := by
    rintro _ hscan rfl rfl
    exact ⟨[], .nil _, rfl, rfl, hscan⟩
  have hown := hends found h
  clear hends
  rw [scanMarkupRun.eq_def] at h
  split at h
  · cases h
    exact hown rfl rfl
  rename_i c cs
  have hdrop : (cs.drop 1).length < (c :: cs).length := by
    rw [List.length_drop, List.length_cons]
    omega
  split at h
  · split at h
    · rename_i hbrace
      obtain ⟨hc, hhead⟩ := hbrace
      obtain ⟨after, hscan, rfl⟩ := found_of_map h
      obtain ⟨run, hrun, hchars, -, hrest⟩ := written_of_scanMarkupRun hscan
      obtain ⟨cs', rfl⟩ : ∃ cs', cs = c :: cs' := by
        cases cs with
        | nil => cases hhead
        | cons d cs' =>
          cases hhead
          exact ⟨cs', rfl⟩
      exact ⟨.escaped c :: run, .brace c hc hrun, congrArg (c :: ·) hchars, rfl, hrest⟩
    split at h
    · cases h
    split at h
    · split at h
      · rename_i value after hreference
        have hlt := length_of_scanReference hreference
        obtain ⟨behind, hscan, rfl⟩ := found_of_map h
        obtain ⟨run, hrun, hchars, -, hrest⟩ := written_of_scanMarkupRun hscan
        exact ⟨.escaped value :: run, .reference value hreference hrun, congrArg (value :: ·) hchars, rfl, hrest⟩
      · cases h
      · cases h
    split at h
    · cases h
    split at h
    · rename_i hdelimiter
      cases hdelimiter.1
    · cases h
      exact hown rfl rfl
  · rename_i hc
    obtain ⟨after, hscan, rfl⟩ := found_of_map h
    obtain ⟨run, hrun, hchars, hblank, hrest⟩ := written_of_scanMarkupRun hscan
    have hplain : c ≠ '<' ∧ c ≠ '&' ∧ c ≠ '\x7b' ∧ c ≠ '\x7d' := by simpa [endsLiteralRun, and_assoc] using hc
    exact ⟨.literal c :: run, .literal c hplain hrun, congrArg (c :: ·) hchars,
      congrArg (isBlank c && ·) hblank, hrest⟩
termination_by text.length

/-- Text in front of markup, or of the end, is a run of characters, and behind it there is no text. -/
theorem written_of_scanMarkupText {found : MarkupText} (h : scanMarkupText none text = .found found rest) :
    ∃ run, WrittenText text run rest ∧ run ≠ [] ∧
      found.value = String.ofList (run.filterMap ContentToken.char?) ∧
      run.all ContentToken.isBlank = found.boundary ∧ scanMarkupText none rest = .absent := by
  unfold scanMarkupText at h
  split at h
  · rename_i found' rest' hscan
    split at h
    · cases h
    · rename_i hlength
      cases h
      obtain ⟨run, hrun, hchars, hblank, hrest⟩ := written_of_scanMarkupRun hscan
      refine ⟨run, hrun, ?_, congrArg String.ofList hchars.symm, hblank, scanMarkupText_absent hrest⟩
      rintro rfl
      cases hrun
      exact hlength rfl
  · cases h
  · cases h

/-! ### What tokens stand for -/

theorem addText_addText (content : List (DirContent Expr)) (a b : String) :
    DirContent.addText (DirContent.addText content a) b = DirContent.addText content (a ++ b) := by
  have hadds : ∃ first last, ∀ text, DirContent.addText content text = first ++ [DirContent.text (last ++ text)] := by
    unfold DirContent.addText
    split
    · exact ⟨_, _, fun _ => rfl⟩
    · exact ⟨content, "", fun text => by rw [String.empty_append]⟩
  obtain ⟨first, last, hadd⟩ := hadds
  rw [hadd, hadd, ← String.append_assoc]
  simp [DirContent.addText]

namespace ContentToken

/-- Characters that follow one another are added as one text. -/
theorem foldl_addTo_text (hrun : ∀ t ∈ run, t.char?.isSome) (hne : run ≠ [])
    (content : List (DirContent Expr)) :
    run.foldl addTo content = DirContent.addText content (String.ofList (run.filterMap char?)) := by
  have hone (t : ContentToken) (ht : t.char?.isSome) :
      ∃ c, t.char? = some c ∧ ∀ content, t.addTo content = DirContent.addText content (String.singleton c) := by
    cases t with
    | literal c | escaped c => exact ⟨c, rfl, fun _ => rfl⟩
    | part => cases ht
  induction run generalizing content with
  | nil => exact absurd rfl hne
  | cons t run ih =>
    rw [List.forall_mem_cons] at hrun
    obtain ⟨c, hc, hadd⟩ := hone t hrun.1
    rw [List.foldl_cons, hadd, List.filterMap_cons_some hc]
    cases run with
    | nil => rfl
    | cons u run =>
      rw [ih hrun.2 (List.cons_ne_nil _ _), addText_addText, String.ofList_cons]

theorem keptBehind_kept {kind : DirContent Expr → Bool} {t : ContentToken}
    (h : (t.isBlank && isBoundary kind before after) = false) :
    keptBehind kind before (t :: after) = t :: keptBehind kind (t :: before) after := by
  rw [keptBehind, h, if_neg Bool.false_ne_true]

theorem find?_of_blank {p : List ContentToken} (h : ∀ t ∈ run, t.isBlank) :
    ((run ++ p).find? fun t => !t.isBlank) = p.find? fun t => !t.isBlank := by
  rw [List.find?_append, List.find?_eq_none.2, Option.none_or]
  intro t ht
  simp [h t ht]

/-- A run of blanks between two boundaries is left out. -/
theorem keptBehind_blanks {kind : DirContent Expr → Bool} (hrun : ∀ t ∈ run, t.isBlank)
    (hbetween : isBoundary kind before after) :
    keptBehind kind before (run ++ after) = keptBehind kind (run.reverse ++ before) after := by
  induction run generalizing before with
  | nil => rfl
  | cons t run ih =>
    rw [List.forall_mem_cons] at hrun
    have hfirst : isBoundary kind before (run ++ after) := by rwa [isBoundary, find?_of_blank hrun.2]
    have hbehind : isBoundary kind (t :: before) after := by
      rwa [isBoundary, List.find?_cons_of_neg (by simp [hrun.1])]
    rw [List.cons_append, keptBehind, hrun.1, Bool.true_and, if_pos hfirst, ih hrun.2 hbehind,
      List.reverse_cons, List.append_assoc]
    rfl

/-- A run of characters that are not all blanks is kept. The induction is on what remains of the run. -/
theorem keptBehind_text {kind : DirContent Expr → Bool} (hrun : ∀ t ∈ run, t.char?.isSome)
    (hsome : run.all isBlank = false) (before after : List ContentToken) :
    keptBehind kind before (run ++ after) = run ++ keptBehind kind (run.reverse ++ before) after := by
  have hfound {l : List ContentToken} (hl : ∃ t ∈ l, t.isBlank = false) (htext : ∀ t ∈ l, t.char?.isSome)
      (more : List ContentToken) : ((l ++ more).find? fun t => !t.isBlank).all (isPartOf kind) = false := by
    obtain ⟨t, ht, hblank⟩ := hl
    obtain ⟨u, hu⟩ : ∃ u, (l.find? fun t => !t.isBlank) = some u :=
      Option.isSome_iff_exists.1 (List.find?_isSome.2 ⟨t, ht, by simp [hblank]⟩)
    rw [List.find?_append, hu, Option.some_or, Option.all_some]
    have hchar := htext u (List.mem_of_find?_eq_some hu)
    cases u with
    | literal | escaped => rfl
    | part => cases hchar
  suffices h : ∀ read left, run = read ++ left →
      keptBehind kind (read.reverse ++ before) (left ++ after) =
        left ++ keptBehind kind (run.reverse ++ before) after from h [] run rfl
  intro read left hsplit
  induction left generalizing read with
  | nil =>
    rw [List.append_nil] at hsplit
    rw [hsplit]
    rfl
  | cons t left ih =>
    have hkept : (t.isBlank && isBoundary kind (read.reverse ++ before) (left ++ after)) = false := by
      rw [hsplit] at hrun hsome
      rw [List.forall_mem_append, List.forall_mem_cons] at hrun
      cases ht : t.isBlank with
      | false => rfl
      | true =>
        rw [List.all_append, List.all_cons, ht, Bool.true_and, Bool.and_eq_false_iff] at hsome
        rw [Bool.true_and, isBoundary, Bool.and_eq_false_iff]
        rcases hsome with hread | hleft
        · obtain ⟨u, hu, hblank⟩ := List.all_eq_false.1 hread
          exact .inl (hfound ⟨u, List.mem_reverse.2 hu, by simpa using hblank⟩
            (fun u hu => hrun.1 u (List.mem_reverse.1 hu)) before)
        · obtain ⟨u, hu, hblank⟩ := List.all_eq_false.1 hleft
          exact .inr (hfound ⟨u, hu, by simpa using hblank⟩ hrun.2.2 after)
    have hnext := ih (read ++ [t]) (by rw [hsplit, List.append_assoc]; rfl)
    rw [List.reverse_append] at hnext
    rw [List.cons_append, keptBehind_kept hkept]
    exact congrArg (t :: ·) hnext

end ContentToken

/-! ### Reading content -/

theorem eat_false {r : Rule} (h : eat r s = .ok false s') : ∃ captures, s' = s.recaptured captures := by
  unfold eat Parser.scan at h
  obtain ⟨_, he, -⟩ | ⟨m', he, captures, rfl⟩ | ⟨d, _, he, -⟩ := Scan.eat_cases r s.scan <;> rw [he] at h <;>
    cases h
  exact ⟨captures, rfl⟩

/-- Where the parser answers nothing only what was captured is lost. -/
def StaysWithoutAnswer {α : Type} (p : Parser (Option α)) : Prop :=
  ∀ s s', p s = .ok none s' → ∃ captures, s' = s.recaptured captures

theorem staysWithoutAnswer_ifEat {α : Type} {r : Rule} {yes no : Parser (Option α)}
    (hyes : ∀ s s', yes s ≠ .ok none s') (hno : StaysWithoutAnswer no) :
    StaysWithoutAnswer (eat r >>= fun b => if b = true then yes else no) := by
  intro s s' h
  obtain ⟨b, s₁, heat, hnext⟩ := of_bind_ok h
  cases b with
  | true => exact absurd hnext (hyes s₁ s')
  | false =>
    obtain ⟨_, rfl⟩ := eat_false heat
    obtain ⟨captures, rfl⟩ := hno _ s' hnext
    exact ⟨captures, rfl⟩

theorem answers_bind {α β : Type} {p : Parser α} {next : α → Parser (Option β)}
    (h : ∀ a s s', next a s ≠ .ok none s') (s s' : ParserState) : (p >>= next) s ≠ .ok none s' := by
  intro hnone
  obtain ⟨a, s₁, -, hnext⟩ := of_bind_ok hnone
  exact h a s₁ s' hnext

theorem staysWithoutAnswer_nestedNode : StaysWithoutAnswer (nestedNode element) := by
  have hsome {part : DirContent Expr} (s s' : ParserState) :
      (pure (some part) : Parser (Option (DirContent Expr))) s ≠ .ok none s' := nofun
  refine staysWithoutAnswer_ifEat (answers_bind fun _ => answers_bind fun _ => hsome) ?_
  refine staysWithoutAnswer_ifEat (answers_bind fun _ => hsome) ?_
  refine staysWithoutAnswer_ifEat (answers_bind fun _ => answers_bind fun _ => hsome) ?_
  refine staysWithoutAnswer_ifEat (answers_bind fun _ => answers_bind fun _ => hsome) ?_
  rintro s _ ⟨⟩
  exact ⟨s.scan.captures, rfl⟩

theorem lexeme_cases {α : Type} {scanner : List Char → Scanned α} {found : Option α}
    (h : lexeme scanner s = .ok found s') :
    (found = none ∧ scanner s.scan.cursor.rest = .absent ∧ s' = s) ∨
      ∃ a rest, found = some a ∧ scanner s.scan.cursor.rest = .found a rest ∧
        s' = { s with scan := s.scan.moveTo rest } := by
  unfold lexeme Parser.scan Scan.lexeme at h
  cases hscan : scanner s.scan.cursor.rest <;> rw [hscan] at h <;> cases h
  · exact .inr ⟨_, _, rfl, rfl, rfl⟩
  · exact .inl ⟨rfl, rfl, rfl⟩

/-- What a step through content can do: it reads the end tag, a node, text or an enclosed expression. -/
theorem elementContentStep_cases {strip : Bool} {opened : LexicalName}
    {next : List (DirContent Expr) ⊕ List (DirContent Expr)}
    (h : elementContentStep single element strip opened content s = .ok next s') :
    (next = .inr content ∧ ∃ s₁, eat endTag s = .ok true s₁ ∧ checkEndTag opened s₁ = .ok () s') ∨
      ∃ captures,
        (∃ p, next = .inl (content ++ [p]) ∧ nestedNode element (s.recaptured captures) = .ok (some p) s') ∨
        (∃ found rest, scanMarkupText none s.scan.cursor.rest = .found found rest ∧
          s' = { s.recaptured captures with scan := (s.recaptured captures).scan.moveTo rest } ∧
          next = .inl (if strip && found.boundary then content else DirContent.addText content found.value)) ∨
        (∃ e s₁, eat enclosedOpen (s.recaptured captures) = .ok true s₁ ∧
          enclosedContent single s₁ = .ok e s' ∧ next = .inl (content ++ [DirContent.enclosed e])) := by
  obtain ⟨b, s₁, hend, h⟩ := of_bind_ok h
  cases b with
  | true =>
    obtain ⟨_, s₂, hcheck, h⟩ := of_bind_ok h
    cases h
    exact .inl ⟨rfl, s₁, hend, hcheck⟩
  | false =>
    obtain ⟨_, rfl⟩ := eat_false hend
    obtain ⟨inner, s₂, hnode, h⟩ := of_bind_ok h
    refine .inr ?_
    cases inner with
    | some p =>
      cases h
      exact ⟨_, .inl ⟨p, rfl, hnode⟩⟩
    | none =>
      obtain ⟨captures, rfl⟩ := staysWithoutAnswer_nestedNode _ _ hnode
      obtain ⟨found, s₃, htext, h⟩ := of_bind_ok h
      refine ⟨captures, .inr ?_⟩
      obtain ⟨rfl, -, rfl⟩ | ⟨found, rest, rfl, hscan, rfl⟩ := lexeme_cases htext
      · obtain ⟨b, s₄, hopen, h⟩ := of_bind_ok h
        cases b with
        | true =>
          obtain ⟨e, s₅, he, h⟩ := of_bind_ok h
          cases h
          exact .inr ⟨e, s₄, hopen, he, rfl⟩
        | false =>
          obtain ⟨b, s₅, -, h⟩ := of_bind_ok h
          cases b with
          | true =>
            obtain ⟨_, s₆, -, h⟩ := of_bind_ok h
            cases h
          | false =>
            obtain ⟨_, s₆, -, h⟩ := of_bind_ok h
            cases h
      · refine .inl ⟨found, rest, hscan, ?_⟩
        dsimp only at h
        split at h
        · rename_i hdrop
          cases h
          exact ⟨rfl, by rw [if_pos hdrop]⟩
        · rename_i hkeep
          cases h
          exact ⟨rfl, by rw [if_neg hkeep]⟩

theorem isMarkup_of_nestedNode {p : DirContent Expr} (h : nestedNode element s = .ok (some p) s') :
    p.isMarkup := by
  obtain ⟨b, s₁, -, h⟩ := of_bind_ok h
  cases b with
  | true =>
    obtain ⟨_, _, -, h⟩ := of_bind_ok h
    obtain ⟨_, _, -, h⟩ := of_bind_ok h
    cases h
    rfl
  | false =>
    obtain ⟨b, s₁, -, h⟩ := of_bind_ok h
    cases b with
    | true =>
      obtain ⟨_, _, -, h⟩ := of_bind_ok h
      cases h
      rfl
    | false =>
      obtain ⟨b, s₁, -, h⟩ := of_bind_ok h
      cases b with
      | true =>
        obtain ⟨_, _, -, h⟩ := of_bind_ok h
        obtain ⟨_, _, -, h⟩ := of_bind_ok h
        cases h
        rfl
      | false =>
        obtain ⟨b, s₁, -, h⟩ := of_bind_ok h
        cases b with
        | true =>
          obtain ⟨_, _, -, h⟩ := of_bind_ok h
          obtain ⟨_, _, -, h⟩ := of_bind_ok h
          cases h
          rfl
        | false => cases h

namespace ContentToken

/-- Behind `content`, tokens are made the content `result`. With `afterText` no text is in front of the
tokens any more, so they begin with a part. -/
structure Makes (strip : Bool) (content result : List (DirContent Expr)) (afterText : Prop)
    (tokens : List ContentToken) : Prop where
  preserved : strip = false → result = tokens.foldl addTo content
  stripped : strip = true → ∀ before, (before.head?.all (isPartOf DirContent.isMarkup) ∨ afterText) →
    result = (keptBehind DirContent.isMarkup before tokens).foldl addTo content
  apart : afterText → tokens.head?.all (isPartOf DirContent.isMarkup)

namespace Makes

variable {strip : Bool} {result : List (DirContent Expr)} {afterText : Prop} {p : DirContent Expr}

theorem nil : Makes strip content content afterText [] := ⟨fun _ => rfl, fun _ _ _ => rfl, fun _ => rfl⟩

theorem part (hp : p.isMarkup) {after : Prop} (h : Makes strip (content ++ [p]) result after tokens) :
    Makes strip content result afterText (.part p :: tokens) where
  preserved := h.preserved
  stripped hstrip before _ := by
    have hkept : keptBehind DirContent.isMarkup before (.part p :: tokens) = _ := keptBehind_kept rfl
    rw [hkept]
    exact h.stripped hstrip (.part p :: before) (.inl hp)
  apart _ := hp

theorem all_find? (h : before.head?.all (isPartOf DirContent.isMarkup)) :
    (before.find? fun t => !t.isBlank).all (isPartOf DirContent.isMarkup) := by
  cases before with
  | nil => rfl
  | cons t before =>
    cases t with
    | literal | escaped => cases h
    | part => exact h

theorem chars (hrun : ∀ t ∈ run, t.char?.isSome) (hne : run ≠ [])
    (h : Makes strip (if strip && run.all isBlank then content else
      DirContent.addText content (String.ofList (run.filterMap char?))) result True tokens) :
    Makes strip content result False (run ++ tokens) where
  preserved hstrip := by
    have hresult := h.preserved hstrip
    rwa [hstrip, Bool.false_and, if_neg Bool.false_ne_true, ← foldl_addTo_text hrun hne, ← List.foldl_append]
      at hresult
  stripped hstrip before hbefore := by
    have hresult := h.stripped hstrip (run.reverse ++ before) (.inr trivial)
    rw [hstrip, Bool.true_and] at hresult
    cases hblank : run.all isBlank with
    | true =>
      have hbetween : isBoundary DirContent.isMarkup before tokens :=
        Bool.and_eq_true_iff.2 ⟨all_find? (hbefore.resolve_right id), all_find? (h.apart trivial)⟩
      rw [keptBehind_blanks (List.all_eq_true.1 hblank) hbetween, hresult, hblank, if_pos rfl]
    | false =>
      rw [keptBehind_text hrun hblank, List.foldl_append, foldl_addTo_text hrun hne, hresult, hblank,
        if_neg Bool.false_ne_true]
  apart := False.elim

end Makes

end ContentToken

open ContentToken

/-- The loop through content makes what is written into content. The induction is on the steps it may
take. -/
theorem content_of_iterateWithin {strip : Bool} {opened : LexicalName} {result : List (DirContent Expr)}
    {n : Nat} (h : iterateWithin (elementContentStep single element strip opened) n content s = .ok result s') :
    ∃ tokens s₁ s₂, WrittenContent single element s tokens s₁ ∧ eat endTag s₁ = .ok true s₂ ∧
      checkEndTag opened s₂ = .ok () s' ∧
      Makes strip content result (scanMarkupText none s.scan.cursor.rest = .absent) tokens := by
  induction n generalizing content s with
  | zero => cases h
  | succ n ih =>
    obtain ⟨next, s₃, hstep, h⟩ := of_bind_ok h
    obtain ⟨rfl, s₁, hend, hcheck⟩ | ⟨captures, ⟨p, rfl, hp⟩ | ⟨found, rest, hscan, rfl, rfl⟩ |
      ⟨e, s₁, hopen, he, rfl⟩⟩ := elementContentStep_cases hstep
    · cases h
      exact ⟨[], s, s₁, .nil s, hend, hcheck, .nil⟩
    · obtain ⟨tokens, s₄, s₅, hwritten, hend, hcheck, hmakes⟩ := ih h
      exact ⟨_, s₄, s₅, .captured captures (.node hp hwritten), hend, hcheck,
        .part (isMarkup_of_nestedNode hp) hmakes⟩
    · obtain ⟨run, hrun, hne, hvalue, hblank, habsent⟩ := written_of_scanMarkupText hscan
      obtain ⟨tokens, s₄, s₅, hwritten, hend, hcheck, hmakes⟩ := ih h
      have habsent' : (scanMarkupText none ({ s.recaptured captures with
          scan := (s.recaptured captures).scan.moveTo rest } : ParserState).scan.cursor.rest = .absent) = True :=
        eq_true habsent
      have hfound : (scanMarkupText none s.scan.cursor.rest = .absent) = False := by
        rw [hscan]
        exact eq_false nofun
      rw [habsent', hvalue, ← hblank] at hmakes
      rw [hfound]
      exact ⟨_, s₄, s₅, .captured captures (.text hrun hwritten), hend, hcheck, .chars hrun.isText hne hmakes⟩
    · obtain ⟨tokens, s₄, s₅, hwritten, hend, hcheck, hmakes⟩ := ih h
      exact ⟨_, s₄, s₅, .captured captures (.enclosed hopen he hwritten), hend, hcheck, .part rfl hmakes⟩

/-! ### Boundary space -/

namespace ContentToken

/-- Some blank belongs to a run with a literal section at a side. -/
def TouchesSection (tokens : List ContentToken) : Prop :=
  ∃ before t after, tokens = before ++ t :: after ∧ t.isBlank ∧
    ((before.reverse.find? fun t => !t.isBlank).any (isPartOf DirContent.isLiteralSection) ∨
      (after.find? fun t => !t.isBlank).any (isPartOf DirContent.isLiteralSection))

theorem all_isPartOf_eq {t? : Option ContentToken} (h : ¬t?.any (isPartOf DirContent.isLiteralSection)) :
    t?.all (isPartOf DirContent.isMarkup) = t?.all (isPartOf DirContent.isNodeOrEnclosed) := by
  cases t? with
  | none => rfl
  | some t =>
    cases t with
    | literal | escaped => rfl
    | part p =>
      have hp : p.isLiteralSection = false := eq_false_of_ne_true h
      exact (congrArg (p.isNodeOrEnclosed || ·) hp).trans (Bool.or_false _)

/-- Away from literal sections it does not matter whether they are boundaries. -/
theorem kept_of_not_touchesSection (h : ¬TouchesSection tokens) :
    kept DirContent.isMarkup tokens = kept DirContent.isNodeOrEnclosed tokens := by
  suffices hbehind : ∀ before after, ¬TouchesSection (before.reverse ++ after) →
      keptBehind DirContent.isMarkup before after = keptBehind DirContent.isNodeOrEnclosed before after from
    hbehind [] tokens h
  intro before after h
  induction after generalizing before with
  | nil => rfl
  | cons t after ih =>
    have hnext := ih (t :: before) (by simpa using h)
    have hboundary : (t.isBlank && isBoundary DirContent.isMarkup before after) =
        (t.isBlank && isBoundary DirContent.isNodeOrEnclosed before after) := by
      cases ht : t.isBlank with
      | false => rfl
      | true =>
        have hsides {side : Prop} (hside : side → ((before.reverse.reverse.find? fun t => !t.isBlank).any
            (isPartOf DirContent.isLiteralSection) ∨ (after.find? fun t => !t.isBlank).any
              (isPartOf DirContent.isLiteralSection))) : ¬side :=
          fun hs => h ⟨before.reverse, t, after, rfl, ht, hside hs⟩
        rw [List.reverse_reverse] at hsides
        rw [isBoundary, isBoundary, all_isPartOf_eq (hsides .inl), all_isPartOf_eq (hsides .inr)]
    rw [keptBehind, keptBehind, hboundary, hnext]

end ContentToken

/-- Content that is read is written of tokens up to its end tag. Where boundary space is preserved it is made
of all of them. Where it is stripped it is made of all but the runs of literal blanks each side of which is
an end of the content, a nested node, an enclosed expression or a literal section; so if no blanks stand
beside a literal section, of all but the runs between ends of the content, nested nodes and enclosed
expressions. -/
theorem boundary_space_is_left_out {single : Parser Expr} {element : Nat → Parser Expr} {opened : LexicalName}
    {s s' : ParserState} {content : List (DirContent Expr)}
    (h : elementContent single element opened s = .ok content s') :
    ∃ tokens s₁ s₂, WrittenContent single element s tokens s₁ ∧ eat endTag s₁ = .ok true s₂ ∧
      checkEndTag opened s₂ = .ok () s' ∧
      (s.context.boundarySpace = .preserve → content = assemble tokens) ∧
      (s.context.boundarySpace = .strip → content = assemble (kept DirContent.isMarkup tokens) ∧
        (¬TouchesSection tokens → content = assemble (kept DirContent.isNodeOrEnclosed tokens))) := by
  obtain ⟨strip, s₃, hconsult, h⟩ := of_bind_ok h
  cases hconsult
  obtain ⟨steps, s₃, hsteps, h⟩ := of_bind_ok h
  cases hsteps
  obtain ⟨tokens, s₁, s₂, hwritten, hend, hcheck, hmakes⟩ := content_of_iterateWithin h
  refine ⟨tokens, s₁, s₂, hwritten, hend, hcheck, fun hpreserve => ?_, fun hstrip => ?_⟩
  · have hkeep : s.context.boundarySpace ≠ .strip := by
      rw [hpreserve]
      nofun
    exact hmakes.preserved (beq_eq_false_iff_ne.2 hkeep)
  · have hresult := hmakes.stripped (beq_iff_eq.2 hstrip) [] (.inl rfl)
    exact ⟨hresult, fun htouch => hresult.trans (congrArg assemble (kept_of_not_touchesSection htouch))⟩

/-- Content with a blank in front of an enclosed expression, which is left out, and a reference to a blank
behind it, which is kept. -/
theorem blank_before_enclosed_is_left_out :
    ∃ s content s', elementContent exprSingle (dirElement exprSingle) ⟨none, "a"⟩ s = .ok content s' ∧
      s.scan.cursor.rest = " \x7b1\x7d&#32;</a>".toList ∧ content.length = 2 ∧
      ∃ tokens s₁ s₂, WrittenContent exprSingle (dirElement exprSingle) s tokens s₁ ∧
        eat endTag s₁ = .ok true s₂ ∧ checkEndTag ⟨none, "a"⟩ s₂ = .ok () s' ∧
        (s.context.boundarySpace = .preserve → content = assemble tokens) ∧
        (s.context.boundarySpace = .strip → content = assemble (kept DirContent.isMarkup tokens) ∧
          (¬TouchesSection tokens → content = assemble (kept DirContent.isNodeOrEnclosed tokens))) := by
  let s₀ := ParserState.ofText " \x7b1\x7d&#32;</a>" .standard
  let s : ParserState := { s₀ with scan := s₀.scan.goto .content }
  have hrun : (match elementContent exprSingle (dirElement exprSingle) ⟨none, "a"⟩ s with
      | .ok content _ => content.length == 2
      | .error _ _ => false) = true := by decide +kernel
  cases h : elementContent exprSingle (dirElement exprSingle) ⟨none, "a"⟩ s with
  | error e s' =>
    rw [h] at hrun
    cases hrun
  | ok content s' =>
    rw [h] at hrun
    exact ⟨s, content, s', h, rfl, beq_iff_eq.1 hrun, boundary_space_is_left_out h⟩

/-- A blank in front of a literal section is left out, although a literal section is no boundary. -/
theorem blank_before_section_is_left_out :
    ∃ e d, parseExpression "<a> <![CDATA[x]]></a>" .standard = .ok e ∧ e.kind = .dirElement d ∧
      d.content ≠ assemble (kept DirContent.isNodeOrEnclosed [.literal ' ', .part (.literalSection "x")]) := by
  obtain ⟨e, he, htest⟩ := exists_ok_of_any (r := parseExpression "<a> <![CDATA[x]]></a>" .standard)
    (fun e => match e.kind with
      | .dirElement d => d.content.length == 1
      | _ => false) (by decide +kernel)
  split at htest
  · rename_i d hkind
    refine ⟨e, d, he, hkind, fun hcontent => ?_⟩
    have hlength : d.content.length = 1 := beq_iff_eq.1 htest
    rw [hcontent] at hlength
    cases hlength
  · cases htest

end XQuerySyntax
