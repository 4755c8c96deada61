import XQuerySyntax.Proofs.Entry.Word
import XQuerySyntax.Proofs.RoundTrip.Phrase

/-! Patterns that spell out words. Such a pattern matches exactly the texts that have these words next, with
space between every two of them and no name that goes on behind the last: no word is seen inside a longer
name, and no two words are seen where they are written as one. -/

namespace XQuerySyntax

open PatternItem Glimpse

/-! ### Words with space between them -/

/-- A word of a pattern: a letter, and letters, digits and hyphens behind it, the last of which is no
hyphen. -/
structure IsPatternWord (word : List Char) : Prop where
  first : ∃ c ∈ word.head?, c.isAlpha
  chars : ∀ c ∈ word, c.isAlphanum ∨ c = '-'
  last : ∀ c ∈ word.getLast?, c ≠ '-'

/-- The text is the words with space between every two of them, and then `rest`, with which no name goes
on. -/
inductive Spelled : List (List Char) → List Char → List Char → Prop where
  | last (word : List Char) {rest : List Char} (hends : endsName rest) : Spelled [word] (word ++ rest) rest
  | cons (word : List Char) {words : List (List Char)} {space text rest : List Char} (hspace : Trivia space)
      (hne : space ≠ []) (htext : Spelled words text rest) :
      Spelled (word :: words) (word ++ (space ++ text)) rest

/-- Where space is looked for while the words are matched one by one: in front of them, and behind each of
them that is there but the last. -/
inductive LooksForSpace : List (List Char) → List Char → List Char → Prop where
  | here (words : List (List Char)) (text : List Char) : LooksForSpace words text text
  | behind {word : List Char} {words : List (List Char)} {space text place : List Char} (hspace : Trivia space)
      (hne : words ≠ []) (hplace : LooksForSpace words text place) :
      LooksForSpace (word :: words) (space ++ (word ++ text)) place

/-- Behind some space a comment begins that has no end. -/
def OpensComment (text : List Char) : Prop :=
  ∃ space inside, text = space ++ '(' :: ':' :: inside ∧ Trivia space ∧
    ∀ body rest, inside = body ++ rest → ¬CommentTail 0 body

/-- A pattern with these words and a blank between every two of them. -/
def wordPattern (words : List (List Char)) : String := String.ofList (List.intercalate [' '] words)

/-- The parts of a pattern behind its first word. -/
def furtherWords (words : List (List Char)) : List PatternItem :=
  words.flatMap fun word => .gap :: word.map .char

variable {word text rest : List Char} {words : List (List Char)} {m : Matcher}

/-! ### The parts of a pattern of words -/

theorem units_of_ascii {chars : List Char} (h : ∀ c ∈ chars, c.toNat < 128) :
    units (String.ofList chars) = chars := by
  have hunit : ∀ c ∈ chars, (String.utf8EncodeChar c).map (fun b => Char.ofNat b.toNat) = [c] := by
    intro c hc
    have hsize : c.utf8Size = 1 := Char.utf8Size_eq_one_iff.2 (by
      have := h c hc
      rw [UInt32.le_iff_toNat_le]
      exact Nat.le_of_lt_succ this)
    rw [String.utf8EncodeChar_eq_singleton hsize]
    have hbyte : (c.val.toUInt8).toNat = c.toNat := by
      have := h c hc
      change c.val.toNat % 256 = c.val.toNat
      exact Nat.mod_eq_of_lt (Nat.lt_trans this (by decide))
    rw [List.map_singleton, hbyte, Char.ofNat_toNat]
  rw [units, String.toList_ofList]
  induction chars with
  | nil => rfl
  | cons c chars ih =>
    rw [List.forall_mem_cons] at hunit h
    rw [List.flatMap_cons, hunit.1, ih h.2 hunit.2]
    rfl

theorem ofChars_of_plain {chars : List Char} (h : ∀ c ∈ chars, c ≠ '%') :
    ofChars chars = chars.map fun c => if c = ' ' then .gap else .char c := by
  induction chars with
  | nil => rfl
  | cons c chars ih =>
    rw [List.forall_mem_cons] at h
    rw [ofChars, ih h.2, List.map_cons]
    · exact fun hc _ => h.1 hc
    · exact fun _ _ hc _ => h.1 hc

namespace IsPatternWord

theorem ne_nil (h : IsPatternWord word) : word ≠ [] := by
  rintro rfl
  obtain ⟨c, hc, -⟩ := h.first
  cases hc

theorem isPlainWord (h : IsPatternWord word) : XQuerySyntax.isPlainWord word := by
  obtain ⟨c, cs, rfl⟩ := List.exists_cons_of_ne_nil h.ne_nil
  have hchar : ∀ d ∈ c :: cs, isWordChar d || d == '-' := by
    intro d hd
    rcases h.chars d hd with hword | rfl
    · simp [isWordChar, hword]
    · rfl
  obtain ⟨_, ⟨⟩, hc⟩ := h.first
  have hfirst : isWordChar c := by simp [isWordChar, Char.isAlphanum, hc]
  exact Bool.and_eq_true_iff.2
    ⟨hfirst, List.all_eq_true.2 fun d hd => hchar d (List.mem_cons_of_mem c hd)⟩

theorem ascii (h : IsPatternWord word) {c : Char} (hc : c ∈ word) : c.toNat < 128 := by
  have hbound (last : Char) (h : c.val ≤ last.val) (hlast : last.toNat < 128) : c.toNat < 128 :=
    Nat.lt_of_le_of_lt (UInt32.le_iff_toNat_le.1 h) hlast
  rcases h.chars c hc with hword | rfl
  · rcases Bool.or_eq_true_iff.1 hword with hletter | hdigit
    · rcases Bool.or_eq_true_iff.1 hletter with hupper | hlower
      · exact hbound 'Z' (of_decide_eq_true hupper).2 (by decide)
      · exact hbound 'z' (of_decide_eq_true (Bool.and_eq_true_iff.1 hlower).2) (by decide)
    · exact hbound '9' (of_decide_eq_true (Bool.and_eq_true_iff.1 hdigit).2) (by decide)
  · decide

theorem keyword (h : IsPatternWord word) : word.all fun c => isWordChar c || c == '-' := by
  obtain ⟨c, cs, rfl⟩ := List.exists_cons_of_ne_nil h.ne_nil
  obtain ⟨hc, hcs⟩ := Bool.and_eq_true_iff.1 h.isPlainWord
  rw [List.all_cons, hc, Bool.true_or, Bool.true_and]
  exact hcs

theorem plain (h : IsPatternWord word) {c : Char} (hc : c ∈ word) : c ≠ ' ' ∧ c ≠ '%' := by
  rcases h.chars c hc with hword | rfl
  · constructor
    all_goals
      rintro rfl
      cases hword
  · decide

end IsPatternWord

/-- The parts of a pattern of words: the characters of the words, and a gap between every two of them. -/
theorem ofText_wordPattern (h : ∀ w ∈ word :: words, IsPatternWord w) :
    ofText (wordPattern (word :: words)) = word.map .char ++ furtherWords words := by
  have hitems {w : List Char} (hw : IsPatternWord w) :
      (w.map fun c => if c = ' ' then PatternItem.gap else .char c) = w.map .char :=
    List.map_congr_left fun _ hc => if_neg (hw.plain hc).1
  have hchars : ∀ c ∈ List.intercalate [' '] (word :: words), c.toNat < 128 ∧ c ≠ '%' := by
    induction words generalizing word with
    | nil =>
      intro c hc
      rw [List.intercalate_singleton] at hc
      have hword := h word List.mem_cons_self
      exact ⟨hword.ascii hc, (hword.plain hc).2⟩
    | cons next words ih =>
      rw [List.forall_mem_cons] at h
      intro c hc
      rw [List.intercalate_cons_cons, List.mem_append, List.mem_append, List.mem_singleton] at hc
      rcases hc with (hc | rfl) | hc
      · exact ⟨h.1.ascii hc, (h.1.plain hc).2⟩
      · decide
      · exact ih h.2 c hc
  rw [ofText, wordPattern, units_of_ascii fun c hc => (hchars c hc).1,
    ofChars_of_plain fun c hc => (hchars c hc).2]
  clear hchars
  induction words generalizing word with
  | nil =>
    rw [List.intercalate_singleton, hitems (h word List.mem_cons_self)]
    exact (List.append_nil _).symm
  | cons next words ih =>
    rw [List.forall_mem_cons] at h
    rw [List.intercalate_cons_cons, List.map_append, List.map_append, hitems h.1, ih h.2, List.append_assoc]
    rfl

/-! ### Open comments -/

theorem Unclosed.opensComment {text : List Char} (h : Unclosed text) : OpensComment text := by
  obtain ⟨fault, place, hscan⟩ := h
  have hsplit : text.takeWhile isBlank ++ text.dropWhile isBlank = text := List.takeWhile_append_dropWhile
  have hblanks : ∀ c ∈ text.takeWhile isBlank, isBlank c := fun _ => List.mem_takeWhile_imp
  rw [scanTrivia_eq, Bool.true_and] at hscan
  split at hscan
  · rename_i hcomment
    obtain ⟨inside, hinside⟩ : ∃ inside, text.dropWhile isBlank = '(' :: ':' :: inside := by
      unfold startsComment at hcomment
      split at hcomment
      · rename_i inside hinside
        exact ⟨inside, hinside⟩
      · cases hcomment
    rw [hinside] at hscan hsplit
    have hbehind : ('(' :: ':' :: inside).drop 2 = inside := rfl
    rw [hbehind] at hscan
    cases hskip : skipCommentBody 0 inside with
    | none =>
      refine ⟨text.takeWhile isBlank, inside, hsplit.symm, by simpa using Trivia.blanks_append hblanks .nil, ?_⟩
      rintro body rest rfl hbody
      rw [skipCommentBody_append hbody] at hskip
      cases hskip
    | some inner =>
      rw [hskip] at hscan
      obtain ⟨body, hbody, rfl⟩ := commentTail_of_skipCommentBody hskip
      have hlt : inner.length < text.length := by
        rw [← hsplit]
        simp only [List.length_append, List.length_cons]
        omega
      have hinner : Unclosed inner := ⟨fault, place, hscan⟩
      obtain ⟨space, inside', rfl, hspace, hopen⟩ := hinner.opensComment
      refine ⟨text.takeWhile isBlank ++ '(' :: ':' :: (body ++ space), inside', ?_,
        .blanks_append hblanks (.comment hbody hspace), hopen⟩
      exact hsplit.symm.trans (by simp)
  · cases hscan
termination_by text.length

/-! ### Matching -/

theorem Spelled.settled (h : Spelled words text rest) (hwords : ∀ w ∈ words, IsPatternWord w) :
    startsTrivia true text = false := by
  have hfirst {w behind : List Char} (hw : IsPatternWord w) : startsTrivia true (w ++ behind) = false := by
    obtain ⟨c, cs, rfl⟩ := List.exists_cons_of_ne_nil hw.ne_nil
    obtain ⟨_, ⟨⟩, hc⟩ := hw.first
    have hstart : isNameStart c := by simp [isNameStart, Text.isAlphabetic, hc]
    apply startsTrivia_cons_eq_false (isBlank_eq_false_of_isNameStart hstart)
    intro rest' heq
    rw [(List.cons.inj heq).1] at hc
    exact absurd hc (by decide)
  cases h with
  | last => exact hfirst (hwords _ List.mem_cons_self)
  | cons => exact hfirst (hwords _ List.mem_cons_self)

namespace Scan

theorem continuesWord_furtherWords (words : List (List Char)) :
    continuesWord (furtherWords words) = false := by cases words <;> rfl

/-- Words that are spelled out are matched. The induction follows the spelling. -/
theorem accepts_spelled (h : Spelled (word :: words) text rest) (hwords : ∀ w ∈ word :: words, IsPatternWord w)
    (afterWord : Bool) :
    Accepts true (word.map .char ++ furtherWords words) afterWord none text rest [] := by
  induction words generalizing word text afterWord with
  | nil =>
    cases h with
    | last _ hends =>
      exact accepts_keyword (hwords word List.mem_cons_self).keyword hends fun _ => accepts_nil rest
    | cons _ _ _ htext => cases htext
  | cons next words ih =>
    rw [List.forall_mem_cons] at hwords
    cases h with
    | @cons _ _ space text' _ hspace hne htext =>
      have hends : endsName (space ++ text') :=
        (endsToken.of_startsTrivia (hspace.startsTrivia hne text')).endsName
      refine accepts_keyword hwords.1.keyword hends fun w => ?_
      exact accepts_gap (scanTrivia_append hspace (htext.settled hwords.2))
        (fun _ => hspace.startsTrivia hne text') (ih htext hwords.2 w)

/-- Where a comment is open space is not skipped. -/
theorem skipTrivia_unclosed (hm : m.state.skipsComments = true) (h : Unclosed m.cursor.rest) :
    ∃ d, skipTrivia m = .error d m := by
  obtain ⟨fault, place, hscan⟩ := h
  refine ⟨fault.diagnostic (m.cursor.offsetOf place), ?_⟩
  change EStateM.map _ (lexeme (scanTrivia m.state.skipsComments)) m = _
  rw [hm]
  unfold EStateM.map lexeme
  rw [hscan]

/-- Behind a word either the further words are spelled out, or the pattern does not match, or it comes to an
open comment. The induction is on the further words. -/
theorem items_furtherWords_cases (hwords : ∀ w ∈ words, IsPatternWord w) (hm : m.state.skipsComments = true)
    (hends : endsName m.cursor.rest) :
    (∃ m', items (furtherWords words) true none m = .ok none m') ∨
      (words ≠ [] ∧ (∃ place, LooksForSpace words m.cursor.rest place ∧ Unclosed place) ∧
        ∃ d m', items (furtherWords words) true none m = .error d m') ∨
      ∃ rest, ∀ word, Spelled (word :: words) (word ++ m.cursor.rest) rest := by
  induction words generalizing m with
  | nil => exact .inr (.inr ⟨_, fun word => .last word hends⟩)
  | cons next words ih =>
    rw [List.forall_mem_cons] at hwords
    have hitems : furtherWords (next :: words) = .gap :: (next.map .char ++ furtherWords words) := rfl
    rw [hitems]
    rcases items_gap_word_cases (m := m) none hwords.1.isPlainWord (continuesWord_furtherWords words) hm with
      hno | hopen | ⟨tail, hstarts, ⟨hscan, htail⟩, hrun⟩
    · exact .inl hno
    · obtain ⟨d, hskip⟩ := skipTrivia_unclosed hm hopen
      refine .inr (.inl ⟨List.cons_ne_nil _ _, ⟨_, .here _ _, hopen⟩, d, m, ?_⟩)
      rw [items, bind_ok (separated_eq m), bind_of_error hskip]
    · obtain ⟨space, hspace, htext, hne⟩ := trivia_of_scanTrivia hscan
      rw [hrun, htext]
      rcases ih (m := m.moveTo tail) hwords.2 hm htail with
        hno | ⟨hsome, ⟨place, hplace, hopen⟩, herror⟩ | ⟨rest, hrest⟩
      · exact .inl hno
      · exact .inr (.inl ⟨List.cons_ne_nil _ _, ⟨place, .behind hspace hsome hplace, hopen⟩, herror⟩)
      · exact .inr (.inr ⟨rest, fun word => .cons word hspace (hne hstarts) (hrest next)⟩)

/-- The pattern of words spelled out behind space matches, and its token begins behind the space. -/
theorem pattern_spelled {space token : List Char} (hblanks : m.state.skipsBlanks = true)
    (hcomments : m.state.skipsComments = true) (hwords : ∀ w ∈ word :: words, IsPatternWord w)
    (htext : m.cursor.rest = space ++ token) (hspace : Trivia space)
    (h : Spelled (word :: words) token rest) :
    pattern (ofText (wordPattern (word :: words))) m =
      .ok true { m.moveTo rest with token, captures := [] } := by
  let m₀ : Matcher := { m with captures := [] }
  have hskip : skipTrivia m₀ = .ok () (m₀.moveTo token) := by
    apply skipTrivia_found
    change scanTrivia m.state.skipsComments m.cursor.rest = _
    rw [hcomments, htext]
    exact scanTrivia_append hspace (h.settled hwords)
  obtain ⟨place, hplace⟩ := accepts_spelled h hwords false (m₀.moveTo token) hcomments rfl
  unfold pattern
  dsimp only
  rw [hblanks, if_pos rfl, hskip, ofText_wordPattern hwords]
  dsimp only
  rw [hplace]
  rfl

/-- Such a pattern skips space and goes through its words, from one to the next. -/
theorem pattern_wordPattern (m : Matcher) (hblanks : m.state.skipsBlanks = true)
    (hwords : ∀ w ∈ word :: words, IsPatternWord w) :
    pattern (ofText (wordPattern (word :: words))) m =
      match skipTrivia { m with captures := [] } with
      | .error d m₁ => .error d m₁
      | .ok () m₁ =>
        match items (word.map .char ++ furtherWords words) false none m₁ with
        | .ok (some rest) m₂ => .ok true { m₂.moveTo rest with token := m₁.cursor.rest }
        | .ok none m₂ => .ok false { m₂.moveTo m.cursor.rest with captures := [] }
        | .error d m₂ => .error d (m₂.moveTo m.cursor.rest) := by
  unfold pattern
  dsimp only
  rewrite [hblanks, if_pos rfl, ofText_wordPattern hwords]
  rfl

/-- The pattern matches only where its words are spelled out behind space. -/
theorem pattern_words_cases (hblanks : m.state.skipsBlanks = true) (hcomments : m.state.skipsComments = true)
    (hwords : ∀ w ∈ word :: words, IsPatternWord w) :
    (∃ m', pattern (ofText (wordPattern (word :: words))) m = .ok false m') ∨
      ((∃ place, LooksForSpace (word :: words) m.cursor.rest place ∧ Unclosed place) ∧
        ∃ d m', pattern (ofText (wordPattern (word :: words))) m = .error d m') ∨
      ∃ space token rest, m.cursor.rest = space ++ token ∧ Trivia space ∧
        Spelled (word :: words) token rest := by
  let m₀ : Matcher := { m with captures := [] }
  have hword := hwords word List.mem_cons_self
  have hplain := hword.isPlainWord
  rw [pattern_wordPattern m hblanks hwords]
  cases hscan : scanTrivia true m.cursor.rest with
  | absent => exact (scanTrivia_ne_absent _ _ hscan).elim
  | faulty fault place =>
    have hopen : Unclosed m₀.cursor.rest := ⟨fault, place, hscan⟩
    obtain ⟨d, hskip⟩ := skipTrivia_unclosed (m := m₀) hcomments hopen
    rw [hskip]
    exact .inr (.inl ⟨⟨_, .here _ _, hopen⟩, d, m₀, rfl⟩)
  | found _ token =>
    have hskip : skipTrivia m₀ = .ok () (m₀.moveTo token) := skipTrivia_found (m := m₀) (hcomments ▸ hscan)
    obtain ⟨space, hspace, htext, -⟩ := trivia_of_scanTrivia hscan
    rw [hskip]
    dsimp only
    have hfirst : word.head?.any isWordChar := by
      obtain ⟨c, hc, hletter⟩ := hword.first
      rw [hc]
      simp [isWordChar, Char.isAlphanum, hletter]
    rcases items_word_cases (m := m₀.moveTo token) false none hword.ne_nil (.inr hfirst) hword.keyword
      (continuesWord_furtherWords words) with ⟨m', hno⟩ | ⟨tail, hrest, hends, hrun⟩
    · rw [hno]
      exact .inl ⟨_, rfl⟩
    obtain rfl : token = word ++ tail := hrest
    rw [hrun]
    have hfurther : ∀ w ∈ words, IsPatternWord w := fun w hw => hwords w (List.mem_cons_of_mem word hw)
    rcases items_furtherWords_cases (m := (m₀.moveTo (word ++ tail)).moveTo tail) hfurther hcomments hends with
      ⟨m', hno⟩ | ⟨hsome, ⟨place, hplace, hopen⟩, d, m', herror⟩ | ⟨rest, hspelled⟩
    · rw [hno]
      exact .inl ⟨_, rfl⟩
    · rw [herror, htext]
      exact .inr (.inl ⟨⟨place, .behind hspace hsome hplace, hopen⟩, d, _, rfl⟩)
    · exact .inr (.inr ⟨space, word ++ tail, rest, htext, hspace, hspelled word⟩)

end Scan

/-- A pattern of words matches, outside markup, exactly where the text goes on with space and the words
spelled out with space between them, so that no name goes on behind the last; the matcher then stands behind
the last word, and the token begins behind the space in front of the first, which is all the space there.
It answers whether it matches, unless a comment is open at one of the places where it looks for space. -/
theorem word_pattern_matches_its_words {words : List (List Char)} (hne : words ≠ [])
    (hwords : ∀ word ∈ words, IsPatternWord word) (m : Matcher) (hmarkup : m.state.isMarkup = false) :
    (∀ m', Scan.pattern (ofText (wordPattern words)) m = .ok true m' ↔
      ∃ space token rest, m.cursor.rest = space ++ token ∧ Trivia space ∧ startsTrivia true token = false ∧
        Spelled words token rest ∧ m' = { m.moveTo rest with token, captures := [] }) ∧
      ((∀ place, LooksForSpace words m.cursor.rest place → ¬OpensComment place) →
        ∃ matched m', Scan.pattern (ofText (wordPattern words)) m = .ok matched m') := by
  obtain ⟨word, words, rfl⟩ := List.exists_cons_of_ne_nil hne
  have hcomments : m.state.skipsComments = true := by
    rw [LexicalState.skipsComments, hmarkup]
    rfl
  have hblanks : m.state.skipsBlanks = true := by
    revert hmarkup
    cases m.state <;> decide
  have hcases := Scan.pattern_words_cases (m := m) hblanks hcomments hwords
  constructor
  · intro m'
    constructor
    · intro hmatch
      rcases hcases with ⟨_, hno⟩ | ⟨-, d, _, herror⟩ | ⟨space, token, rest, htext, hspace, hspelled⟩
      · rw [hmatch] at hno
        cases hno
      · rw [hmatch] at herror
        cases herror
      · have hown := Scan.pattern_spelled hblanks hcomments hwords htext hspace hspelled
        rw [hmatch] at hown
        cases hown
        exact ⟨space, token, rest, htext, hspace, hspelled.settled hwords, hspelled, rfl⟩
    · rintro ⟨space, token, rest, htext, hspace, -, hspelled, rfl⟩
      exact Scan.pattern_spelled hblanks hcomments hwords htext hspace hspelled
  · intro hclosed
    rcases hcases with ⟨m', hno⟩ | ⟨⟨place, hplace, hopen⟩, -⟩ | ⟨space, token, rest, htext, hspace, hspelled⟩
    · exact ⟨false, m', hno⟩
    · exact absurd hopen.opensComment (hclosed place hplace)
    · exact ⟨true, _, Scan.pattern_spelled hblanks hcomments hwords htext hspace hspelled⟩

/-- Two words, with a comment where the blank of the pattern stands. -/
theorem order_by_is_matched :
    ∃ m', (Scan.pattern (ofText (wordPattern [['o', 'r', 'd', 'e', 'r'], ['b', 'y']]))
        (.ofText " order(:(::):)by $x" .all) = .ok true m') ∧
      String.ofList m'.cursor.rest = " $x" ∧ String.ofList m'.token = "order(:(::):)by $x" := by
  have hwords : ∀ word ∈ [['o', 'r', 'd', 'e', 'r'], ['b', 'y']], IsPatternWord word := by
    have horder : IsPatternWord ['o', 'r', 'd', 'e', 'r'] := ⟨⟨'o', rfl, by decide⟩, by simp, by simp⟩
    have hby : IsPatternWord ['b', 'y'] := ⟨⟨'b', rfl, by decide⟩, by simp, by simp⟩
    simp [horder, hby]
  have hcomment : Trivia ['(', ':', '(', ':', ':', ')', ':', ')'] :=
    .comment (.enter (.leave .close)) .nil
  have hends : endsName [' ', '$', 'x'] := by
    rintro c ⟨⟩
    decide
  have hspelled := Spelled.cons ['o', 'r', 'd', 'e', 'r'] hcomment (List.cons_ne_nil _ _)
    (.last ['b', 'y'] hends)
  obtain ⟨hmatches, -⟩ := word_pattern_matches_its_words (List.cons_ne_nil _ _) hwords
    (.ofText " order(:(::):)by $x" .all) rfl
  exact ⟨_, (hmatches _).2 ⟨[' '], _, _, by decide, .blank ' ' (by decide) .nil, by decide, hspelled, rfl⟩,
    by decide, by decide⟩

end XQuerySyntax
