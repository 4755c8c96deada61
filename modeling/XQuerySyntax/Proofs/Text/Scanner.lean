import XQuerySyntax.Proofs.Text.Slice

/-! Every scanner takes whole characters, and so does every step of the matcher: wherever the matcher comes
to, its position lies between two characters of the text, and it sees the character that begins there. -/

namespace XQuerySyntax

namespace Slicing

/-! ### Text in markup -/

/-- Whether the character at the start of a text is written twice. -/
def isDoubled? (c : Char) (text : List Char) : Option Bool :=
  (sliceFrom? text 1).map fun behind => decide (behind.head? = some c)

/-- Puts literal text in front. -/
def consLiterals (inAttribute : Bool) (chunk : List Char) (run : MarkupRun) : MarkupRun :=
  ⟨chunk.map (fun c => if inAttribute && isBlank c then ' ' else c) ++ run.chars,
    chunk.all isBlank && run.boundary⟩

/-- Character data up to markup, an enclosed expression, the closing delimiter or the end. -/
def markupRun (delimiter : Option Char) (text : List Char) : Option (Scanned MarkupRun) :=
  let literals := consLiterals delimiter.isSome (text.takeWhile fun c => !endsLiteralRun delimiter c)
  match hrest : text.dropWhile fun c => !endsLiteralRun delimiter c with
  | [] => some (.found (literals .empty) [])
  | c :: cs =>
    have := length_le_of_dropWhile hrest
    match if c = '{' ∨ c = '}' then isDoubled? c (c :: cs) else some false with
    | none => none
    | some true =>
      match hslice : sliceFrom? (c :: cs) 2 with
      | none => none
      | some rest =>
        have := length_of_sliceFrom? hslice
        (markupRun delimiter rest).map (Scanned.map fun run => literals (.consEscaped c run))
    | some false =>
      if c = '}' then some (.faulty .loneBrace (c :: cs))
      else if c = '&' then
        match hreference : scanReference (c :: cs) with
        | .found value rest =>
          have := length_of_scanReference hreference
          (markupRun delimiter rest).map (Scanned.map fun run => literals (.consEscaped value run))
        | .absent => some .absent
        | .faulty fault place => some (.faulty fault place)
      else if c = '<' ∧ delimiter.isSome then some (.faulty .lessThanInAttribute (c :: cs))
      else
        match if some c = delimiter then isDoubled? c (c :: cs) else some false with
        | none => none
        | some true =>
          match hslice : sliceFrom? (c :: cs) 2 with
          | none => none
          | some rest =>
            have := length_of_sliceFrom? hslice
            (markupRun delimiter rest).map (Scanned.map fun run => literals (.consEscaped c run))
        | some false => some (.found (literals .empty) (c :: cs))
termination_by text.length

theorem scanMarkupRun_takeWhile (delimiter : Option Char) (text : List Char) :
    scanMarkupRun delimiter text = (scanMarkupRun delimiter (text.dropWhile fun c => !endsLiteralRun delimiter c)).map
      (consLiterals delimiter.isSome (text.takeWhile fun c => !endsLiteralRun delimiter c)) := by
  induction text with
  | nil => exact (Scanned.map_id _).symm
  | cons c cs ih =>
    by_cases hc : endsLiteralRun delimiter c = true
    · rw [List.dropWhile_cons_of_neg (by simpa using hc), List.takeWhile_cons_of_neg (by simpa using hc)]
      exact (Scanned.map_id _).symm
    · rw [List.dropWhile_cons_of_pos (by simpa using hc), List.takeWhile_cons_of_pos (by simpa using hc),
        scanMarkupRun.eq_def]
      dsimp only
      rw [if_neg hc, ih, Scanned.map_map]
      congr 1
      funext run
      simp [consLiterals, MarkupRun.consLiteral, Bool.and_assoc]

theorem utf8Size_of_endsLiteralRun {delimiter : Option Char} (hdelimiter : IsDelimiter delimiter) {c : Char}
    (h : endsLiteralRun delimiter c = true) : c.utf8Size = 1 := by
  simp only [endsLiteralRun, Bool.or_eq_true, beq_iff_eq] at h
  rcases hdelimiter with rfl | rfl | rfl <;> rcases h with (((rfl | rfl) | rfl) | rfl) | h <;> first | rfl | cases h <;> rfl

theorem isDoubled?_eq {c : Char} (h : c.utf8Size = 1) (p : Prop) [Decidable p] (cs : List Char) :
    (if p then isDoubled? c (c :: cs) else some false) = some (decide (p ∧ cs.head? = some c)) := by
  rw [isDoubled?, sliceFrom?_one h]
  by_cases hp : p <;> simp [hp]

theorem markupRun_eq {delimiter : Option Char} (hdelimiter : IsDelimiter delimiter) (text : List Char) :
    markupRun delimiter text = some (scanMarkupRun delimiter text) := by
  rw [markupRun.eq_def, scanMarkupRun_takeWhile]
  generalize consLiterals delimiter.isSome (text.takeWhile fun c => !endsLiteralRun delimiter c) = literals
  dsimp only
  split
  · rename_i hrest
    rw [hrest, scanMarkupRun.eq_def]
    rfl
  · rename_i c cs hrest
    have hle := length_le_of_dropWhile hrest
    have hends : endsLiteralRun delimiter c = true := by simpa using head_of_dropWhile hrest
    have hsize := utf8Size_of_endsLiteralRun hdelimiter hends
    have hdoubled (h : cs.head? = some c) : sliceFrom? (c :: cs) 2 = some (cs.drop 1) := by
      obtain ⟨rest, rfl⟩ := List.head?_eq_some_iff.1 h
      exact sliceFrom?_two hsize hsize rest
    have hescaped (h : cs.head? = some c) :
        (match hslice : sliceFrom? (c :: cs) 2 with
        | none => none
        | some rest => (markupRun delimiter rest).map (Scanned.map fun run => literals (.consEscaped c run))) =
          some (((scanMarkupRun delimiter (cs.drop 1)).map (.consEscaped c)).map literals) := by
      have hlt := length_of_sliceFrom? (hdoubled h)
      have hshort : cs.length - 1 < text.length := by
        rw [List.length_drop] at hlt
        omega
      split <;> rename_i hslice <;> cases (hdoubled h).symm.trans hslice
      rw [markupRun_eq hdelimiter, Scanned.map_map]
      rfl
    rw [hrest, isDoubled?_eq hsize, isDoubled?_eq hsize, scanMarkupRun.eq_def]
    dsimp only
    rw [if_pos hends]
    by_cases hbrace : (c = '{' ∨ c = '}') ∧ cs.head? = some c
    · rw [if_pos hbrace, ← hescaped hbrace.2, decide_eq_true hbrace]
    · rw [if_neg hbrace, decide_eq_false hbrace]
      dsimp only
      split
      · rfl
      split
      · rename_i hc
        subst hc
        -- Both sides ask for the reference, in one match or in two.
        split <;> rename_i hs <;> try (split <;> rename_i heq <;> cases hs.symm.trans heq)
        · have hlt := length_of_scanReference hs
          rw [markupRun_eq hdelimiter, Scanned.map_map]
          rfl
        · rfl
        · rfl
      split
      · rfl
      by_cases hquote : some c = delimiter ∧ cs.head? = some c
      · rw [if_pos hquote, ← hescaped hquote.2, decide_eq_true hquote]
      · rw [if_neg hquote, decide_eq_false hquote]
        rfl
termination_by text.length

/-- An end of the text is all of it exactly if it has as many bytes. -/
theorem byteLength_eq_iff {text rest : List Char} (h : rest <:+ text) :
    byteLength rest = byteLength text ↔ rest.length = text.length := by
  obtain ⟨before, rfl⟩ := h
  cases before with
  | nil => simp
  | cons c cs =>
    have hpos := c.utf8Size_pos
    simp only [List.cons_append, byteLength_cons, byteLength_append, List.length_cons, List.length_append]
    constructor <;> intro h <;> omega

/-- Character data of an attribute value or of element content. -/
def markupText (delimiter : Option Char) (text : List Char) : Option (Scanned MarkupText) :=
  (markupRun delimiter text).map fun
    | .found run rest =>
      if byteLength rest = byteLength text then .absent else .found ⟨String.ofList run.chars, run.boundary⟩ rest
    | .absent => .absent
    | .faulty fault place => .faulty fault place

theorem markupText_eq {delimiter : Option Char} (hdelimiter : IsDelimiter delimiter) (text : List Char) :
    markupText delimiter text = some (scanMarkupText delimiter text) := by
  have hwithin := scanMarkupRun_within delimiter text
  rw [markupText, scanMarkupText, markupRun_eq hdelimiter, Option.map_some]
  cases hrun : scanMarkupRun delimiter text with
  | found run rest =>
    rw [hrun] at hwithin
    simp only [byteLength_eq_iff hwithin]
  | absent => rfl
  | faulty fault place => rfl

/-! ### Bodies that end at a word -/

/-- The text in front of the first place where a word stands, and the text from there on. -/
def splitBefore? (word text : List Char) : Option (List Char × List Char) :=
  (Scanned.splitAt? word text).map fun (body, _) => (body, text.drop body.length)

/-- The body of a lexeme that ends at a word, which is skipped. -/
def bodyUpTo (word : List Char) (fault : LexicalFault) (place text : List Char) : Option (Scanned String) :=
  match splitBefore? word text with
  | none => some (.faulty fault place)
  | some (body, rest) => (sliceFrom? rest (byteLength word)).map (.found (String.ofList body))

theorem bodyUpTo_eq (word : List Char) (fault : LexicalFault) (place text : List Char) :
    bodyUpTo word fault place text = some (match Scanned.splitAt? word text with
      | some (body, rest) => .found (String.ofList body) rest
      | none => .faulty fault place) := by
  rw [bodyUpTo, splitBefore?]
  cases hsplit : Scanned.splitAt? word text with
  | none => rfl
  | some parts =>
    obtain ⟨body, rest⟩ := parts
    have htext := Scanned.eq_append_of_splitAt? hsplit
    have hdrop : text.drop body.length = word ++ rest := by rw [htext, List.append_assoc, List.drop_left]
    dsimp only [Option.map_some]
    rw [hdrop, sliceFrom?_append]
    rfl

/-- The body of a comment in markup. -/
def markupComment (text : List Char) : Option (Scanned String) :=
  match splitBefore? "-->".toList text with
  | none => some (.faulty (.unterminated "XML comment") text)
  | some (body, rest) =>
    if hasDoubleHyphen body || body.getLast? == some '-' then some (.faulty .doubleHyphenInComment text)
    else (sliceFrom? rest 3).map (.found (String.ofList body))

theorem markupComment_eq (text : List Char) : markupComment text = some (scanMarkupComment text) := by
  have hbody := bodyUpTo_eq "-->".toList (.unterminated "XML comment") text text
  rw [bodyUpTo] at hbody
  rw [markupComment, scanMarkupComment]
  cases hsplit : Scanned.splitAt? "-->".toList text with
  | none => simp only [splitBefore?, hsplit, Option.map_none]
  | some parts =>
    obtain ⟨body, rest⟩ := parts
    simp only [splitBefore?, hsplit, Option.map_some] at hbody ⊢
    split
    · rfl
    · exact hbody

/-- The body of a literal section. -/
def literalSection (text : List Char) : Option (Scanned String) :=
  bodyUpTo "]]>".toList (.unterminated "CDATA section") text text

theorem literalSection_eq (text : List Char) : literalSection text = some (scanLiteralSection text) :=
  bodyUpTo_eq _ _ _ _

/-- The content of a processing instruction or pragma. -/
def delimited (terminator construct : String) (text : List Char) : Option (Scanned String) :=
  if terminator.toList.isPrefixOf text then
    (sliceFrom? text (byteLength terminator.toList)).map (.found "")
  else if text.head?.any isBlank then
    bodyUpTo terminator.toList (.unterminated construct) text (text.dropWhile isBlank)
  else some (.faulty .missingSpaceAfterName text)

theorem delimited_eq (terminator construct : String) (text : List Char) :
    delimited terminator construct text = some (scanDelimited terminator construct text) := by
  rw [delimited, scanDelimited]
  split
  · rename_i hterminator
    obtain ⟨rest, rfl⟩ := List.isPrefixOf_iff_prefix.1 hterminator
    rw [sliceFrom?_append, List.drop_left]
    rfl
  · split
    · exact bodyUpTo_eq _ _ _ _
    · rfl

end Slicing

theorem scanComment_within (text : List Char) : (scanComment text).Within text := by
  unfold scanComment
  split
  · split
    · rename_i hskip
      exact (suffix_of_skipCommentBody hskip).trans (List.drop_suffix _ _)
    · exact List.suffix_rfl
  · trivial

/-! ### All scanners -/

/-- The scanners of lexemes. -/
inductive Scanner where
  | name
  | qualifiedName
  | numeral
  | reference
  | stringLiteral
  | markupText (delimiter : Option Char) (h : IsDelimiter delimiter)
  | comment
  | trivia (comments : Bool)
  | markupComment
  | literalSection
  | delimited (terminator construct : String)

namespace Scanner

/-- What a scanner finds. -/
def Value : Scanner → Type
  | qualifiedName => LexicalName
  | numeral => NumeralKind × List Char
  | reference => Char
  | markupText _ _ => MarkupText
  | trivia _ => Unit
  | _ => String

/-- The answer of a scanner; of a numeral, its kind and its text. -/
def scan : (s : Scanner) → List Char → Scanned s.Value
  | name => scanName
  | qualifiedName => scanQualifiedName
  | numeral => fun text => (scanNumeral text).map fun n => (n.kind, n.text)
  | reference => scanReference
  | stringLiteral => scanStringLiteral
  | markupText delimiter _ => scanMarkupText delimiter
  | comment => scanComment
  | trivia comments => scanTrivia comments
  | markupComment => scanMarkupComment
  | literalSection => scanLiteralSection
  | delimited terminator construct => scanDelimited terminator construct

/-- The answer of a scanner that skips by cutting, if no cut fails. A reference is read without cuts. -/
def slice : (s : Scanner) → List Char → Option (Scanned s.Value)
  | name => Slicing.name
  | qualifiedName => Slicing.qualifiedName
  | numeral => Slicing.numeral
  | reference => fun text => some (scanReference text)
  | stringLiteral => Slicing.stringLiteral
  | markupText delimiter _ => Slicing.markupText delimiter
  | comment => Slicing.comment
  | trivia comments => Slicing.trivia comments
  | markupComment => Slicing.markupComment
  | literalSection => Slicing.literalSection
  | delimited terminator construct => Slicing.delimited terminator construct

/-- No cut fails, and cutting changes no answer. -/
theorem slice_eq (s : Scanner) (text : List Char) : s.slice text = some (s.scan text) := by
  cases s with
  | name => exact Slicing.name_eq text
  | qualifiedName => exact Slicing.qualifiedName_eq text
  | numeral => exact Slicing.numeral_eq text
  | reference => rfl
  | stringLiteral => exact Slicing.stringLiteral_eq text
  | markupText delimiter h => exact Slicing.markupText_eq h text
  | comment => exact Slicing.comment_eq text
  | trivia comments => exact Slicing.trivia_eq comments text
  | markupComment => exact Slicing.markupComment_eq text
  | literalSection => exact Slicing.literalSection_eq text
  | delimited terminator construct => exact Slicing.delimited_eq terminator construct text

theorem scan_within (s : Scanner) (text : List Char) : (s.scan text).Within text := by
  cases s with
  | name => exact scanName_within text
  | qualifiedName => exact scanQualifiedName_within text
  | numeral => exact (scanNumeral_within text).map _
  | reference => exact scanReference_within text
  | stringLiteral => exact scanStringLiteral_within text
  | markupText delimiter h => exact scanMarkupText_within delimiter text
  | comment => exact scanComment_within text
  | trivia comments => exact scanTrivia_within comments text
  | markupComment => exact scanMarkupComment_within text
  | literalSection => exact scanLiteralSection_within text
  | delimited terminator construct => exact scanDelimited_within terminator construct text

end Scanner

/-! ### The matcher -/

/-- Whatever a matcher over the text is asked to do, one operation after another, with the marks that it was
given on the way; an operation may also fail. -/
inductive Matcher.Reached (text : String) (extensions : Extensions) : Matcher → List Matcher.Mark → Prop where
  | start : Reached text extensions (.ofText text extensions) []
  | eat {m : Matcher} {marks : List Matcher.Mark} (r : Rule) (h : Reached text extensions m marks) :
      Reached text extensions (Scan.eat r m).state marks
  | peek {m : Matcher} {marks : List Matcher.Mark} (r : Rule) (h : Reached text extensions m marks) :
      Reached text extensions (Scan.peek r m).state marks
  | pattern {m : Matcher} {marks : List Matcher.Mark} (parts : List PatternItem)
      (h : Reached text extensions m marks) : Reached text extensions (Scan.pattern parts m).state marks
  | lexeme {m : Matcher} {marks : List Matcher.Mark} (s : Scanner) (h : Reached text extensions m marks) :
      Reached text extensions (Scan.lexeme s.scan m).state marks
  | skipTrivia {m : Matcher} {marks : List Matcher.Mark} (h : Reached text extensions m marks) :
      Reached text extensions (Scan.skipTrivia m).state marks
  | atEnd {m : Matcher} {marks : List Matcher.Mark} (h : Reached text extensions m marks) :
      Reached text extensions (Scan.atEnd m).state marks
  | goto {m : Matcher} {marks : List Matcher.Mark} (state : LexicalState) (h : Reached text extensions m marks) :
      Reached text extensions (m.goto state) marks
  | mark {m : Matcher} {marks : List Matcher.Mark} (h : Reached text extensions m marks) :
      Reached text extensions m (m.mark :: marks)
  | restore {m : Matcher} {marks : List Matcher.Mark} {mark : Matcher.Mark} (h : Reached text extensions m marks)
      (hmark : mark ∈ marks) : Reached text extensions (m.restore mark) marks

namespace Matcher

variable {text : String} {m m' : Matcher}

/-- A matcher that goes by the bytes of its text. -/
structure Counts (text : String) (m : Matcher) : Prop extends m.Within text where
  source : m.cursor.source = text.toList

theorem Counts.of_place (h : m.Counts text) (hplace : ∃ captures, m' = { m with captures }) : m'.Counts text := by
  obtain ⟨captures, rfl⟩ := hplace
  exact ⟨⟨h.size, h.rest, h.token⟩, h.source⟩

end Matcher

namespace Scan

variable {α : Type} {text : String} {m : Matcher}

/-- A match leaves the matcher in the text, also one that fails. -/
theorem counts_pattern (parts : List PatternItem) (hm : m.Counts text) : (pattern parts m).state.Counts text := by
  have hsettles := pattern_settles parts m
  have hstays := (stays_pattern : Stays text (pattern parts) fun _ => True) m hm.toWithin
  cases hp : pattern parts m with
  | ok matched m' =>
    rw [hp] at hsettles hstays
    refine ⟨hstays.2, ?_⟩
    cases matched with
    | true =>
      obtain ⟨rest, token, captures, rfl⟩ := hsettles
      exact hm.source
    | false =>
      obtain rfl : m' = _ := hsettles
      exact hm.source
  | error d m' =>
    rw [hp] at hsettles
    exact hm.of_place hsettles

theorem counts_eat (r : Rule) (hm : m.Counts text) : (eat r m).state.Counts text := by
  obtain ⟨m', heat, -, hpattern⟩ | ⟨m', heat, hplace⟩ | ⟨d, m', heat, hplace⟩ := eat_cases r m
  · have hcounts := counts_pattern r.items hm
    rw [hpattern] at hcounts
    rw [heat]
    exact ⟨⟨hcounts.size, hcounts.rest, hcounts.token⟩, hcounts.source⟩
  · rw [heat]
    exact hm.of_place hplace
  · rw [heat]
    exact hm.of_place hplace

theorem counts_peek (r : Rule) (hm : m.Counts text) : (peek r m).state.Counts text := by
  have hcounts := counts_pattern r.items hm
  unfold peek
  split
  · cases hp : pattern r.items m with
    | ok matched m' =>
      rw [hp] at hcounts
      exact ⟨hcounts.toWithin.moveTo hm.rest, hcounts.source⟩
    | error d m' =>
      rw [hp] at hcounts
      exact hcounts
  · exact hm

theorem counts_lexeme {scanner : List Char → Scanned α} (h : ∀ t, (scanner t).Within t) (hm : m.Counts text) :
    (lexeme scanner m).state.Counts text := by
  have hscan := h m.cursor.rest
  unfold lexeme
  cases hs : scanner m.cursor.rest with
  | found a rest =>
    rw [hs] at hscan
    exact ⟨hm.toWithin.moveTo (List.IsSuffix.trans hscan hm.rest), hm.source⟩
  | absent => exact hm
  | faulty fault place => exact hm

theorem counts_skipTrivia (hm : m.Counts text) : (skipTrivia m).state.Counts text := by
  have hcounts := counts_lexeme (scanTrivia_within m.state.skipsComments) hm
  change (EStateM.map (fun _ => ()) (lexeme (scanTrivia m.state.skipsComments)) m).state.Counts text
  unfold EStateM.map
  cases hs : lexeme (scanTrivia m.state.skipsComments) m <;> rw [hs] at hcounts <;> exact hcounts

theorem counts_atEnd (hm : m.Counts text) : (atEnd m).state.Counts text := by
  have hcounts := counts_lexeme (scanTrivia_within true) hm
  unfold atEnd
  cases hs : lexeme (scanTrivia true) m <;> rw [hs] at hcounts <;>
    exact ⟨hcounts.toWithin.moveTo hm.rest, hcounts.source⟩

end Scan

theorem Matcher.Reached.counts {text : String} {extensions : Extensions} {m : Matcher} {marks : List Matcher.Mark}
    (h : m.Reached text extensions marks) : m.Counts text ∧ ∀ mark ∈ marks, mark.rest <:+ text.toList := by
  induction h with
  | start => exact ⟨⟨.ofText text extensions, rfl⟩, fun _ h => (nomatch h)⟩
  | eat r _ ih => exact ⟨Scan.counts_eat r ih.1, ih.2⟩
  | peek r _ ih => exact ⟨Scan.counts_peek r ih.1, ih.2⟩
  | pattern parts _ ih => exact ⟨Scan.counts_pattern parts ih.1, ih.2⟩
  | lexeme s _ ih => exact ⟨Scan.counts_lexeme s.scan_within ih.1, ih.2⟩
  | skipTrivia _ ih => exact ⟨Scan.counts_skipTrivia ih.1, ih.2⟩
  | atEnd _ ih => exact ⟨Scan.counts_atEnd ih.1, ih.2⟩
  | goto state _ ih => exact ⟨⟨⟨ih.1.size, ih.1.rest, ih.1.token⟩, ih.1.source⟩, ih.2⟩
  | mark _ ih =>
    refine ⟨ih.1, fun mark hmark => ?_⟩
    rcases List.mem_cons.1 hmark with rfl | hmark
    · exact ih.1.rest
    · exact ih.2 mark hmark
  | restore _ hmark ih => exact ⟨⟨⟨ih.1.size, ih.2 _ hmark, ih.1.token⟩, ih.1.source⟩, ih.2⟩

/-! ### Places by their bytes -/

theorem dropBytes_append (before after : List Char) :
    Cursor.dropBytes (byteLength before) (before ++ after) = after := by
  induction before with
  | nil =>
    cases after with
    | nil => rfl
    | cons c cs => exact if_neg (by have := c.utf8Size_pos; rw [byteLength_nil]; omega)
  | cons c cs ih =>
    rw [List.cons_append, Cursor.dropBytes, byteLength_cons, if_pos (by omega), Nat.add_sub_cancel_left, ih]

namespace Matcher.Counts

variable {text : String} {m : Matcher}

/-- Every place in the text is come to by its byte offset. -/
theorem reset_offsetOf (h : m.Counts text) {rest : List Char} (hrest : rest <:+ text.toList) :
    m.cursor.reset (m.cursor.offsetOf rest) = m.cursor.moveTo rest := by
  obtain ⟨before, htext⟩ := hrest
  rw [Cursor.reset, Cursor.offsetOf, h.size, h.source, ← htext, byteLength_append, Nat.add_sub_cancel,
    dropBytes_append]

theorem sliceFrom?_pos (h : m.Counts text) : sliceFrom? text.toList m.cursor.pos = some m.cursor.rest := by
  obtain ⟨before, htext⟩ := h.rest
  rw [Cursor.pos, Cursor.offsetOf, h.size, ← htext, byteLength_append, Nat.add_sub_cancel, sliceFrom?_append]

/-- The position is the end of the text exactly if nothing remains. -/
theorem pos_eq_size_iff (h : m.Counts text) : m.cursor.pos = byteLength text.toList ↔ m.cursor.rest = [] := by
  obtain ⟨before, htext⟩ := h.rest
  rw [Cursor.pos, Cursor.offsetOf, h.size, ← htext, byteLength_append]
  cases m.cursor.rest with
  | nil => simp
  | cons c cs =>
    have hpos := c.utf8Size_pos
    rw [byteLength_cons]
    simp only [reduceCtorEq, iff_false]
    omega

end Matcher.Counts

/-- What is left behind a lexeme is an end of the text that begins between two characters, and so is the place
of a fault. -/
def Scanned.LiesBetweenCharacters {α : Type} (text : String) : Scanned α → Prop
  | found _ rest => rest <:+ text.toList ∧ IsBoundary text (byteLength text.toList - byteLength rest)
  | absent => True
  | faulty _ place => place <:+ text.toList ∧ IsBoundary text (byteLength text.toList - byteLength place)

/-- Scanners that skip by bytes never cut a character, and they answer what the scanners over characters do,
which leave the text between two characters; so after any operations the position of a matcher lies between
two characters of the text, it sees the character there and nothing exactly at the end, and every place is
found again by its byte offset. -/
theorem scanners_take_whole_characters (text : String) :
    (∀ s : Scanner, s.slice text.toList = some (s.scan text.toList) ∧
      (s.scan text.toList).LiesBetweenCharacters text) ∧
    ∀ extensions m marks, Matcher.Reached text extensions m marks →
      IsBoundary text m.cursor.pos ∧
      m.cursor.current? = (sliceFrom? text.toList m.cursor.pos).bind List.head? ∧
      (m.cursor.current? = none ↔ m.cursor.pos = byteLength text.toList) ∧
      (∀ mark ∈ marks, m.cursor.reset (m.cursor.offsetOf mark.rest) = (m.restore mark).cursor) ∧
      ∀ (s : Scanner) value rest, s.scan m.cursor.rest = .found value rest →
        m.cursor.advanceBy (byteLength m.cursor.rest - byteLength rest) = m.cursor.moveTo rest := by
  constructor
  · intro s
    have hwithin := s.scan_within text.toList
    refine ⟨s.slice_eq text.toList, ?_⟩
    cases hscan : s.scan text.toList with
    | found value rest =>
      rw [hscan] at hwithin
      exact ⟨hwithin, isBoundary_of_suffix hwithin⟩
    | absent => trivial
    | faulty fault place =>
      rw [hscan] at hwithin
      exact ⟨hwithin, isBoundary_of_suffix hwithin⟩
  · intro extensions m marks h
    obtain ⟨hm, hmarks⟩ := h.counts
    refine ⟨hm.pos, ?_, ?_, fun mark hmark => hm.reset_offsetOf (hmarks mark hmark), fun s value rest hscan => ?_⟩
    · rw [hm.sliceFrom?_pos]
      rfl
    · rw [hm.pos_eq_size_iff, Cursor.current?, List.head?_eq_none_iff]
    · have hwithin := s.scan_within m.cursor.rest
      rw [hscan] at hwithin
      have hrest : rest <:+ text.toList := List.IsSuffix.trans hwithin hm.rest
      have hle : byteLength rest ≤ byteLength m.cursor.rest := by
        obtain ⟨before, hbefore⟩ := hwithin
        rw [← hbefore, byteLength_append]
        omega
      have hsize : byteLength m.cursor.rest ≤ m.cursor.size := by
        obtain ⟨before, hbefore⟩ := hm.rest
        rw [hm.size, ← hbefore, byteLength_append]
        omega
      rw [← hm.reset_offsetOf hrest, Cursor.advanceBy, Cursor.pos, Cursor.offsetOf, Cursor.offsetOf]
      congr 1
      omega

end XQuerySyntax
