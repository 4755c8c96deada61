import XQuerySyntax.Proofs.RoundTrip.Lexeme
import XQuerySyntax.Proofs.Rollback

/-! Looking ahead. A rule that does not match can mostly be told from the first few lexemes of the text,
of which a name may be any name; what is told so holds of every text that begins with such lexemes,
and can be computed. -/

namespace XQuerySyntax

/-! ### Parts of a pattern

The characters of a literal are decoded one by one, each of them from the first byte on. Where many patterns
are looked at, their parts are read off the bytes. -/

theorem PatternItem.units_eq (pattern : String) :
    units pattern = pattern.toByteArray.data.toList.map fun b => Char.ofNat b.toNat := by
  rw [units, ← List.map_flatMap, ← String.utf8Encode_toList, List.utf8Encode, List.toList_data_toByteArray]

/-- The parts of the pattern, read off its bytes. -/
def Rule.itemsOfBytes (r : Rule) : List PatternItem :=
  PatternItem.ofChars (r.pattern.toByteArray.data.toList.map fun b => Char.ofNat b.toNat)

theorem Rule.items_eq : Rule.items = itemsOfBytes :=
  funext fun r => congrArg PatternItem.ofChars (PatternItem.units_eq r.pattern)

/-! ### Glimpses -/

/-- What is known of a piece of text. -/
inductive Glimpse where
  /-- This character. -/
  | char (c : Char)
  /-- A digit. -/
  | digit
  /-- Some name. -/
  | name
  /-- The rest of some name, or nothing. -/
  | nameRest
  /-- The rest of a name that ends in these characters. -/
  | word (chars : List Char)
  /-- Blanks or comments, at least one. -/
  | gap
  /-- Anything that does not begin with this character. -/
  | unlike (c : Char)
  /-- The end of the text. -/
  | stop
  deriving DecidableEq, Repr, Inhabited

namespace Glimpse

/-- The text begins with what is known, in places with or without comments. -/
def Shows (comments : Bool) : List Glimpse → List Char → Prop
  | [], _ => True
  | .char c :: view, text => ∃ rest, text = c :: rest ∧ Shows comments view rest
  | .digit :: view, text => ∃ c rest, text = c :: rest ∧ c.isDigit ∧ Shows comments view rest
  | .name :: view, text =>
    ∃ name rest, text = name ++ rest ∧ isName name ∧ endsName rest ∧ Shows comments view rest
  | .nameRest :: view, text =>
    ∃ name rest, text = name ++ rest ∧ name.all isNameChar ∧ endsName rest ∧
      Shows comments view rest
  | .word chars :: view, text =>
    ∃ rest, text = chars ++ rest ∧ chars.all isNameChar ∧ endsName rest ∧ Shows comments view rest
  | .gap :: view, text =>
    ∃ rest, startsTrivia comments text ∧ scanTrivia comments text = .found () rest ∧
      Shows comments view rest
  | .unlike c :: _, text => ∀ d ∈ text.head?, d ≠ c
  | .stop :: _, text => text = []

/-- What is known of the text behind a character, if it may begin with that character. -/
def next? (c : Char) : List Glimpse → Option (List Glimpse)
  | [] => some []
  | .char d :: view => if d = c then some view else none
  | .digit :: view => if c.isDigit then some view else none
  | .name :: view => if isNameStart c then some (.nameRest :: view) else none
  | .nameRest :: view => if isNameChar c then some (.nameRest :: view) else next? c view
  | .word (d :: chars) :: view => if d = c then some (.word chars :: view) else none
  | .word [] :: view => if isNameChar c then none else next? c view
  | .gap :: _ => if isBlank c ∨ c = '(' then some [] else none
  | .unlike d :: _ => if c = d then none else some []
  | .stop :: _ => none

/-- What is known of a text that does not go on with a name character, if it may be so. -/
def ended? : List Glimpse → Option (List Glimpse)
  | .char d :: view => if isNameChar d then none else some (.char d :: view)
  | .digit :: _ | .name :: _ | .word (_ :: _) :: _ => none
  | .nameRest :: view | .word [] :: view => some view
  | view => some view

/-- Neither a blank nor a comment begins here. -/
def isSettled : List Glimpse → Bool
  | .char c :: view => !isBlank c && (c != '(' || (next? ':' view).isNone)
  | .word (d :: _) :: _ => isNameStart d
  | .digit :: _ | .name :: _ | .stop :: _ => true
  | _ => false

/-- What is known of the text behind the space that it begins with. -/
def skip? : List Glimpse → Option (List Glimpse)
  | .gap :: view => some view
  | view => if isSettled view then some view else none

/-- The text begins with no name. -/
def excludesName : List Glimpse → Bool
  | .char c :: _ => !isNameStart c
  | .digit :: _ | .gap :: _ | .stop :: _ => true
  | _ => false

/-- The text begins with no number. -/
def excludesNumber : List Glimpse → Bool
  | .char '.' :: .gap :: _ => true
  | .char '.' :: .char c :: _ => !c.isDigit
  | .char c :: _ | .word (c :: _) :: _ => !c.isDigit && c != '.'
  | .name :: _ | .gap :: _ | .stop :: _ => true
  | _ => false

/-- What is known of the text behind the name that it begins with. -/
def behindName? : List Glimpse → Option (List Glimpse)
  | .name :: view => some view
  | .word chars :: view => if isName chars then some view else none
  | _ => none

/-- What is known of the text behind the name, qualified or not, that it begins with. -/
def behindQualifiedName? (view : List Glimpse) : Option (List Glimpse) :=
  match behindName? view with
  | some (.char ':' :: rest) =>
    match behindName? rest with
    | some rest' => some rest'
    | none => if excludesName rest then some (.char ':' :: rest) else none
  | some rest => if next? ':' rest = none then some rest else none
  | none => none

/-- Whether the parts of a pattern certainly do not match a text of which this is known. -/
def refuses : List PatternItem → Bool → List Glimpse → Bool
  | [], _, _ => false
  | .never :: _, _, _ => true
  | .anchor :: items, afterWord, view => refuses items afterWord view
  | .gap :: items, afterWord, view =>
    match skip? view with
    | some rest => refuses items afterWord rest
    | none => false
  | .percent :: items, _, view =>
    match next? '%' view with
    | some rest => refuses items false rest
    | none => true
  | .char c :: items, afterWord, view =>
    let word := PatternItem.isWordChar c || (c == '-' && afterWord)
    match next? c view with
    | none => true
    | some rest =>
      if word && !PatternItem.continuesWord items then
        match ended? rest with
        | some rest' => refuses items true rest'
        | none => true
      else refuses items word rest
  | .capture .name :: items, _, view =>
    match behindName? view with
    | some rest => refuses items true rest
    | none => excludesName view
  | .capture .qualifiedName :: items, _, view =>
    match behindQualifiedName? view with
    | some rest => refuses items true rest
    | none => excludesName view
  | .capture .string :: _, _, view => next? '"' view = none && next? '\'' view = none
  | .capture .number :: _, _, view => excludesNumber view

variable {comments : Bool} {view rest : List Glimpse} {text : List Char}

theorem isNameChar_of_isNameStart {c : Char} (h : isNameStart c) : isNameChar c := by
  unfold isNameStart at h
  unfold isNameChar
  rcases Bool.or_eq_true_iff.1 h with h | h <;> simp [h]

theorem isNameChar_of_isDigit {c : Char} (h : c.isDigit) : isNameChar c := by
  unfold isNameChar Text.isNumeric
  simp [h]

/-- No digit begins a name. -/
theorem isNameStart_eq_false_of_isDigit {c : Char} (h : c.isDigit) : isNameStart c = false := by
  simp only [Char.isDigit, Bool.and_eq_true, decide_eq_true_eq, UInt32.le_iff_toNat_le] at h
  obtain ⟨h₁, h₂⟩ := h
  change 48 ≤ c.toNat at h₁
  change c.toNat ≤ 57 at h₂
  have hascii : ¬128 ≤ c.toNat := by omega
  have hletter : c.isAlpha = false := by
    change (decide (c.val ≥ 65 ∧ c.val ≤ 90) || decide (c.val ≥ 97) && decide (c.val ≤ 122)) = false
    simp only [Bool.or_eq_false_iff, Bool.and_eq_false_iff, decide_eq_false_iff_not, UInt32.le_iff_toNat_le,
      ge_iff_le]
    change ¬(65 ≤ c.toNat ∧ c.toNat ≤ 90) ∧ (¬97 ≤ c.toNat ∨ ¬c.toNat ≤ 122)
    omega
  have hunderscore : (c == '_') = false := by
    rw [beq_eq_false_iff_ne]
    rintro rfl
    exact absurd h₂ (by decide)
  unfold isNameStart Text.isAlphabetic
  rw [hletter, hunderscore, decide_eq_false hascii]
  rfl

theorem not_endsName {c : Char} (h : isNameChar c) (rest : List Char) : ¬endsName (c :: rest) := by
  intro hend
  have hc := hend c rfl
  rw [h] at hc
  cases hc

/-- Space begins with a blank or a parenthesis. -/
theorem head_of_startsTrivia (h : startsTrivia comments text) :
    ∃ c rest, text = c :: rest ∧ (isBlank c ∨ c = '(') := by
  cases text with
  | nil =>
    rw [startsTrivia] at h
    simp [startsComment] at h
  | cons c rest =>
    refine ⟨c, rest, rfl, ?_⟩
    unfold startsTrivia startsComment at h
    rcases Bool.or_eq_true_iff.1 h with hblank | hcomment
    · exact .inl hblank
    · split at hcomment
      · rename_i heq
        cases heq
        exact .inr rfl
      · simp at hcomment

/-! ### What the answers mean -/

theorem Shows.next {c : Char} {text : List Char} (h : Shows comments view (c :: text)) :
    ∃ rest, next? c view = some rest ∧ Shows comments rest text := by
  induction view with
  | nil => exact ⟨[], rfl, trivial⟩
  | cons glimpse view ih =>
    cases glimpse with
    | char d =>
      obtain ⟨_, he, hs⟩ := h
      cases he
      exact ⟨view, if_pos rfl, hs⟩
    | digit =>
      obtain ⟨_, _, he, hd, hs⟩ := h
      cases he
      exact ⟨view, if_pos hd, hs⟩
    | name =>
      obtain ⟨name, rest, he, hname, hend, hs⟩ := h
      cases name with
      | nil => cases hname
      | cons d name =>
        cases he
        obtain ⟨hd, hall⟩ := Bool.and_eq_true_iff.1 hname
        exact ⟨.nameRest :: view, if_pos hd, name, rest, rfl, hall, hend, hs⟩
    | nameRest =>
      obtain ⟨name, rest, he, hall, hend, hs⟩ := h
      cases name with
      | nil =>
        rw [List.nil_append] at he
        subst he
        have hc : ¬isNameChar c := by simp [hend c rfl]
        obtain ⟨view', hview, hs'⟩ := ih hs
        exact ⟨view', (if_neg hc).trans hview, hs'⟩
      | cons d name =>
        cases he
        obtain ⟨hd, hall'⟩ := Bool.and_eq_true_iff.1 hall
        exact ⟨.nameRest :: view, if_pos hd, name, rest, rfl, hall', hend, hs⟩
    | word chars =>
      obtain ⟨rest, he, hall, hend, hs⟩ := h
      cases chars with
      | nil =>
        rw [List.nil_append] at he
        subst he
        have hc : ¬isNameChar c := by simp [hend c rfl]
        obtain ⟨view', hview, hs'⟩ := ih hs
        exact ⟨view', (if_neg hc).trans hview, hs'⟩
      | cons d chars =>
        cases he
        obtain ⟨-, hall'⟩ := Bool.and_eq_true_iff.1 hall
        exact ⟨.word chars :: view, if_pos rfl, rest, rfl, hall', hend, hs⟩
    | gap =>
      obtain ⟨_, hstarts, -, -⟩ := h
      obtain ⟨_, _, he, hc⟩ := head_of_startsTrivia hstarts
      cases he
      exact ⟨[], if_pos hc, trivial⟩
    | unlike d =>
      have hc : c ≠ d := h c rfl
      exact ⟨[], if_neg hc, trivial⟩
    | stop => cases h

theorem Shows.ended (h : Shows comments view text) (hend : endsName text) :
    ∃ rest, ended? view = some rest ∧ Shows comments rest text := by
  cases view with
  | nil => exact ⟨[], rfl, trivial⟩
  | cons glimpse view =>
    cases glimpse with
    | char d =>
      obtain ⟨rest, rfl, hs⟩ := h
      have hd : ¬isNameChar d := by simp [hend d rfl]
      exact ⟨.char d :: view, if_neg hd, rest, rfl, hs⟩
    | digit =>
      obtain ⟨d, rest, rfl, hd, -⟩ := h
      exact absurd hend (not_endsName (isNameChar_of_isDigit hd) rest)
    | name =>
      obtain ⟨name, rest, rfl, hname, -⟩ := h
      cases name with
      | nil => cases hname
      | cons d name =>
        obtain ⟨hd, -⟩ := Bool.and_eq_true_iff.1 hname
        exact absurd hend (not_endsName (isNameChar_of_isNameStart hd) (name ++ rest))
    | nameRest =>
      obtain ⟨name, rest, rfl, hall, -, hs⟩ := h
      cases name with
      | nil => exact ⟨view, rfl, hs⟩
      | cons d name =>
        obtain ⟨hd, -⟩ := Bool.and_eq_true_iff.1 hall
        exact absurd hend (not_endsName hd (name ++ rest))
    | word chars =>
      obtain ⟨rest, rfl, hall, -, hs⟩ := h
      cases chars with
      | nil => exact ⟨view, rfl, hs⟩
      | cons d chars =>
        obtain ⟨hd, -⟩ := Bool.and_eq_true_iff.1 hall
        exact absurd hend (not_endsName hd (chars ++ rest))
    | gap => exact ⟨.gap :: view, rfl, h⟩
    | unlike d => exact ⟨.unlike d :: view, rfl, h⟩
    | stop => exact ⟨.stop :: view, rfl, h⟩

theorem isBlank_eq_false_of_isNameStart {c : Char} (h : isNameStart c) : isBlank c = false := by
  cases hb : isBlank c with
  | false => rfl
  | true =>
    simp only [isBlank, Bool.or_eq_true, beq_iff_eq] at hb
    rcases hb with ((rfl | rfl) | rfl) | rfl <;> exact absurd h (by decide)

theorem isBlank_eq_false_of_isDigit {c : Char} (h : c.isDigit) : isBlank c = false := by
  cases hb : isBlank c with
  | false => rfl
  | true =>
    simp only [isBlank, Bool.or_eq_true, beq_iff_eq] at hb
    rcases hb with ((rfl | rfl) | rfl) | rfl <;> exact absurd h (by decide)

theorem startsTrivia_cons_eq_false {c : Char} (hblank : isBlank c = false)
    (hopen : ∀ rest, c :: text ≠ '(' :: ':' :: rest) : startsTrivia comments (c :: text) = false := by
  have hcomment : startsComment (c :: text) = false := by
    unfold startsComment
    split
    · rename_i rest heq
      exact absurd heq (hopen rest)
    · rfl
  unfold startsTrivia
  rw [List.head?_cons, Option.any_some, hblank, hcomment]
  exact Bool.and_false comments

theorem Shows.settled (h : Shows comments view text) (hview : isSettled view) :
    startsTrivia comments text = false := by
  have of_start {c : Char} (hc : isNameStart c) (rest : List Char) :
      startsTrivia comments (c :: rest) = false := by
    refine startsTrivia_cons_eq_false (isBlank_eq_false_of_isNameStart hc) fun _ he => ?_
    cases he
    exact absurd hc (by decide)
  cases view with
  | nil => cases hview
  | cons glimpse view =>
    cases glimpse with
    | char c =>
      obtain ⟨rest, rfl, hs⟩ := h
      obtain ⟨hblank, hopen⟩ := Bool.and_eq_true_iff.1 hview
      refine startsTrivia_cons_eq_false (by simpa using hblank) fun _ he => ?_
      cases he
      obtain ⟨_, hnext, -⟩ := hs.next
      rw [hnext] at hopen
      cases hopen
    | digit =>
      obtain ⟨c, rest, rfl, hc, -⟩ := h
      refine startsTrivia_cons_eq_false (isBlank_eq_false_of_isDigit hc) fun _ he => ?_
      cases he
      exact absurd hc (by decide)
    | name =>
      obtain ⟨name, rest, rfl, hname, -⟩ := h
      cases name with
      | nil => cases hname
      | cons c name => exact of_start (Bool.and_eq_true_iff.1 hname).1 (name ++ rest)
    | nameRest => cases hview
    | word chars =>
      obtain ⟨rest, rfl, -⟩ := h
      cases chars with
      | nil => cases hview
      | cons c chars => exact of_start hview (chars ++ rest)
    | gap => cases hview
    | unlike c => cases hview
    | stop =>
      obtain rfl := h
      exact Bool.and_false comments

theorem Shows.skip {rest : List Glimpse} (h : Shows comments view text) (hview : skip? view = some rest) :
    ∃ text', scanTrivia comments text = .found () text' ∧ Shows comments rest text' := by
  have settled (hskip : (if isSettled view then some view else none) = some rest) :
      ∃ text', scanTrivia comments text = .found () text' ∧ Shows comments rest text' := by
    split at hskip
    · rename_i hset
      cases hskip
      exact ⟨text, scanTrivia_none (h.settled hset), h⟩
    · cases hskip
  cases view with
  | nil => exact settled hview
  | cons glimpse view =>
    cases glimpse with
    | gap =>
      obtain ⟨text', -, hscan, hs⟩ := h
      cases hview
      exact ⟨text', hscan, hs⟩
    | _ => exact settled hview

theorem Shows.behindName (h : Shows comments view text) (hview : behindName? view = some rest) :
    ∃ name text', text = name ++ text' ∧ isName name ∧ endsName text' ∧ Shows comments rest text' := by
  cases view with
  | nil => cases hview
  | cons glimpse view =>
    cases glimpse with
    | name =>
      cases hview
      exact h
    | word chars =>
      obtain ⟨text', he, -, hend, hs⟩ := h
      change (if isName chars then some view else none) = some rest at hview
      split at hview
      · rename_i hname
        cases hview
        exact ⟨chars, text', he, hname, hend, hs⟩
      · cases hview
    | _ => cases hview

theorem scanName_absent {c : Char} (h : isNameStart c = false) (text : List Char) :
    scanName (c :: text) = .absent := by
  rw [scanName, h]
  rfl

theorem Shows.noName (h : Shows comments view text) (hview : excludesName view) :
    scanName text = .absent := by
  cases view with
  | nil => cases hview
  | cons glimpse view =>
    cases glimpse with
    | char c =>
      obtain ⟨rest, rfl, -⟩ := h
      exact scanName_absent (by simpa [excludesName] using hview) rest
    | digit =>
      obtain ⟨c, rest, rfl, hc, -⟩ := h
      exact scanName_absent (isNameStart_eq_false_of_isDigit hc) rest
    | gap =>
      obtain ⟨-, hstarts, -⟩ := h
      obtain ⟨c, rest, rfl, hc⟩ := head_of_startsTrivia hstarts
      have hstart : isNameStart c = false := by
        rcases hc with hblank | rfl
        · cases hn : isNameStart c with
          | false => rfl
          | true =>
            rw [isBlank_eq_false_of_isNameStart hn] at hblank
            cases hblank
        · decide
      exact scanName_absent hstart rest
    | stop =>
      obtain rfl := h
      rfl
    | _ => cases hview

theorem Shows.behindQualifiedName (h : Shows comments view text)
    (hview : behindQualifiedName? view = some rest) :
    ∃ name text', scanQualifiedName text = .found name text' ∧ Shows comments rest text' := by
  unfold behindQualifiedName? at hview
  split at hview
  · rename_i view' hname
    obtain ⟨qualifier, text', rfl, hq, hend, text₁, rfl, hs₁⟩ := h.behindName hname
    split at hview
    · rename_i hsecond
      cases hview
      obtain ⟨name, text₂, rfl, hn, hend, hs₂⟩ := hs₁.behindName hsecond
      exact ⟨_, text₂, scanQualifiedName_pair hq hn hend, hs₂⟩
    · split at hview
      · rename_i hno
        cases hview
        exact ⟨_, _, scanQualifiedName_colon hq (hs₁.noName hno), text₁, rfl, hs₁⟩
      · cases hview
  · rename_i view' _ hname
    obtain ⟨name, text', rfl, hn, hend, hs⟩ := h.behindName hname
    split at hview
    · rename_i hcolon
      cases hview
      refine ⟨_, text', scanQualifiedName_append hn hend fun c hc => ?_, hs⟩
      rintro rfl
      cases text' with
      | nil => cases hc
      | cons d text' =>
        cases hc
        obtain ⟨_, hnext, -⟩ := hs.next
        rw [hnext] at hcolon
        cases hcolon
    · cases hview
  · cases hview

theorem scanNumeral_absent {c : Char} (hdigit : c.isDigit = false) (hpoint : c ≠ '.')
    (text : List Char) : scanNumeral (c :: text) = .absent := by
  have htake : (c :: text).takeWhile Char.isDigit = [] :=
    List.takeWhile_cons_of_neg (by simp [hdigit])
  have hdrop : (c :: text).dropWhile Char.isDigit = c :: text :=
    List.dropWhile_cons_of_neg (by simp [hdigit])
  have hmantissa : scanMantissa (c :: text) = none := by
    unfold scanMantissa scanDigits
    rw [htake, hdrop]
    split
    · rename_i heq
      cases heq
      exact absurd rfl hpoint
    · rfl
    · rename_i heq
      cases heq
      exact absurd rfl hpoint
    · rename_i hwhole _ heq
      cases heq
      exact (hwhole rfl).elim
  rw [scanNumeral, hmantissa]

theorem scanMantissa_point {text rest : List Char} {whole : List Char}
    (h : scanDigits text = (whole, '.' :: rest)) :
    scanMantissa text =
      if whole = [] ∧ (scanDigits rest).1 = [] then none
      else some (whole, some (scanDigits rest).1, (scanDigits rest).2) := by
  unfold scanMantissa
  rw [h]
  cases whole with
  | nil =>
    rcases hd : scanDigits rest with ⟨fraction, left⟩
    cases fraction <;> simp [hd]
  | cons d whole => simp

/-- A point in front of no digit begins no number. -/
theorem scanNumeral_point (h : ∀ c ∈ text.head?, c.isDigit = false) : scanNumeral ('.' :: text) = .absent := by
  have hdigits : (scanDigits text).1 = [] := by
    cases text with
    | nil => rfl
    | cons c text => exact List.takeWhile_cons_of_neg (by simp [h c rfl])
  have hpoint : scanDigits ('.' :: text) = ([], '.' :: text) := rfl
  have hmantissa : scanMantissa ('.' :: text) = none := by
    rw [scanMantissa_point hpoint, if_pos ⟨rfl, hdigits⟩]
  rw [scanNumeral, hmantissa]

theorem Shows.noNumber (h : Shows comments view text) (hview : excludesNumber view) :
    scanNumeral text = .absent := by
  have of_char {c : Char} (hc : (!c.isDigit && c != '.') = true) (rest : List Char) :
      scanNumeral (c :: rest) = .absent := by
    obtain ⟨hdigit, hpoint⟩ := Bool.and_eq_true_iff.1 hc
    exact scanNumeral_absent (by simpa using hdigit) (by simpa using hpoint) rest
  have not_digit {c : Char} (hc : c.isDigit → False) (hpoint : c ≠ '.') :
      (!c.isDigit && c != '.') = true := by
    rw [Bool.eq_false_iff.2 hc, Bool.not_false, Bool.true_and]
    simpa using hpoint
  cases view with
  | nil => cases hview
  | cons glimpse view =>
    cases glimpse with
    | char c =>
      obtain ⟨rest, rfl, hs⟩ := h
      unfold excludesNumber at hview
      split at hview
      · rename_i heq
        cases heq
        obtain ⟨-, hstarts, -⟩ := hs
        obtain ⟨c, rest, rfl, hc⟩ := head_of_startsTrivia hstarts
        refine scanNumeral_point ?_
        rintro _ ⟨⟩
        cases hdigit : c.isDigit with
        | false => rfl
        | true =>
          rcases hc with hblank | rfl
          · rw [isBlank_eq_false_of_isDigit hdigit] at hblank
            cases hblank
          · cases hdigit
      · rename_i heq
        cases heq
        obtain ⟨rest, rfl, -⟩ := hs
        refine scanNumeral_point ?_
        rintro _ ⟨⟩
        simpa using hview
      · rename_i heq
        cases heq
        exact of_char hview rest
      iterate 4
        · rename_i heq
          cases heq
      · cases hview
    | name =>
      obtain ⟨name, rest, rfl, hname, -⟩ := h
      cases name with
      | nil => cases hname
      | cons c name =>
        obtain ⟨hc, -⟩ := Bool.and_eq_true_iff.1 hname
        refine of_char (not_digit (fun hd => ?_) ?_) (name ++ rest)
        · rw [isNameStart_eq_false_of_isDigit hd] at hc
          cases hc
        · rintro rfl
          exact absurd hc (by decide)
    | word chars =>
      obtain ⟨rest, rfl, -⟩ := h
      cases chars with
      | nil => cases hview
      | cons c chars => exact of_char hview (chars ++ rest)
    | gap =>
      obtain ⟨-, hstarts, -⟩ := h
      obtain ⟨c, rest, rfl, hc⟩ := head_of_startsTrivia hstarts
      refine of_char (not_digit (fun hd => ?_) ?_) rest
      · rcases hc with hblank | rfl
        · rw [isBlank_eq_false_of_isDigit hd] at hblank
          cases hblank
        · exact absurd hd (by decide)
      · rintro rfl
        rcases hc with hblank | heq
        · exact absurd hblank (by decide)
        · cases heq
    | stop =>
      obtain rfl := h
      rfl
    | _ => cases hview

theorem Shows.noString (h : Shows comments view text) (hdouble : next? '"' view = none)
    (hsingle : next? '\'' view = none) : scanStringLiteral text = .absent := by
  have excluded {c : Char} (hnext : next? c view = none) (rest : List Char) : text ≠ c :: rest := by
    rintro rfl
    obtain ⟨_, hsome, -⟩ := h.next
    rw [hsome] at hnext
    cases hnext
  cases text with
  | nil => rfl
  | cons c rest =>
    have hc : ¬(c = '"' ∨ c = '\'') := by
      rintro (rfl | rfl)
      · exact excluded hdouble rest rfl
      · exact excluded hsingle rest rfl
    rw [scanStringLiteral, if_neg hc]

end Glimpse

namespace Scan

open Glimpse

variable {α β : Type}

theorem bind_ok {step : Scan α} {next : α → Scan β} {a : α} {m m' : Matcher}
    (h : step m = .ok a m') : (step >>= next) m = next a m' := by
  change EStateM.bind step next m = _
  unfold EStateM.bind
  rw [h]

theorem bind_error {step : Scan α} {next : α → Scan β} {d : Diagnostic} {m m' : Matcher}
    (h : step m = .error d m') : (step >>= next) m = .error d m' := by
  change EStateM.bind step next m = _
  unfold EStateM.bind
  rw [h]

theorem lexeme_found {scanner : List Char → Scanned α} {m : Matcher} {a : α} {rest : List Char}
    (h : scanner m.cursor.rest = .found a rest) : lexeme scanner m = .ok (some a) (m.moveTo rest) := by
  unfold lexeme
  rw [h]

theorem lexeme_absent {scanner : List Char → Scanned α} {m : Matcher}
    (h : scanner m.cursor.rest = .absent) : lexeme scanner m = .ok none m := by
  unfold lexeme
  rw [h]

theorem skipTrivia_found {m : Matcher} {rest : List Char}
    (h : scanTrivia m.state.skipsComments m.cursor.rest = .found () rest) :
    skipTrivia m = .ok () (m.moveTo rest) := by
  change EStateM.map _ (lexeme (scanTrivia m.state.skipsComments)) m = _
  unfold EStateM.map
  rw [lexeme_found h]

theorem char_cons {c : Char} {m : Matcher} {rest : List Char} (h : m.cursor.rest = c :: rest) :
    char c m = .ok true (m.moveTo rest) := by
  have hcurrent : m.cursor.current? = some c := congrArg List.head? h
  have hadvance : m.cursor.advance = m.cursor.moveTo rest := by
    rw [Cursor.advance, h, List.tail_cons]
  unfold char
  rw [if_pos hcurrent, hadvance]
  rfl

theorem char_other {c : Char} {m : Matcher} (h : ∀ rest, m.cursor.rest ≠ c :: rest) :
    char c m = .ok false m := by
  have hcurrent : ¬m.cursor.current? = some c := by
    intro hc
    obtain ⟨rest, hrest⟩ := List.head?_eq_some_iff.1 hc
    exact h rest hrest
  unfold char
  rw [if_neg hcurrent]

theorem separated_eq (m : Matcher) :
    separated m = .ok (startsTrivia m.state.skipsComments m.cursor.rest) m := rfl

theorem wordEnds_eq (m : Matcher) : wordEnds m = .ok (!m.cursor.current?.any isNameChar) m := rfl

theorem endsName_of_wordEnds {m : Matcher} (h : (!m.cursor.current?.any isNameChar) = true) :
    endsName m.cursor.rest := by
  intro c hc
  have hhead : m.cursor.rest.head? = some c := hc
  rw [Cursor.current?, hhead] at h
  simpa using h

/-- A character that is not there is told from what is known, or it is there and more is known. -/
theorem char_cases (c : Char) {view : List Glimpse} {m : Matcher}
    (hs : Shows m.state.skipsComments view m.cursor.rest) :
    char c m = .ok false m ∨ ∃ text rest, next? c view = some rest ∧
      char c m = .ok true (m.moveTo text) ∧ Shows m.state.skipsComments rest text := by
  cases htext : m.cursor.rest with
  | nil => exact .inl (char_other (by simp [htext]))
  | cons d text =>
    by_cases hd : d = c
    · subst hd
      rw [htext] at hs
      obtain ⟨rest, hnext, hrest⟩ := hs.next
      exact .inr ⟨text, rest, hnext, char_cons htext, hrest⟩
    · exact .inl (char_other (by simp [htext, hd]))

theorem placeholder_absent {kind : Placeholder} {m : Matcher}
    (h : match kind with
      | .name => scanName m.cursor.rest = .absent
      | .qualifiedName => scanQualifiedName m.cursor.rest = .absent
      | .string => scanStringLiteral m.cursor.rest = .absent
      | .number => scanNumeral m.cursor.rest = .absent) :
    placeholder kind m = .ok false m := by
  cases kind with
  | name => exact (bind_ok (lexeme_absent h)).trans rfl
  | qualifiedName => exact (bind_ok (lexeme_absent h)).trans rfl
  | string => exact (bind_ok (lexeme_absent h)).trans rfl
  | number =>
    have hnumber : number m = .ok none m := by
      unfold number
      rw [lexeme_absent h]
    exact (bind_ok hnumber).trans rfl

theorem placeholder_name {m : Matcher} {name text : List Char} (h : m.cursor.rest = name ++ text)
    (hn : isName name) (hend : endsName text) :
    placeholder .name m =
      .ok true { m.moveTo text with captures := m.captures ++ [.name (String.ofList name)] } := by
  have hscan : scanName m.cursor.rest = .found (String.ofList name) text := by
    rw [h]
    exact scanName_append hn hend
  exact (bind_ok (lexeme_found hscan)).trans rfl

theorem placeholder_qualifiedName {m : Matcher} {name : LexicalName} {text : List Char}
    (h : scanQualifiedName m.cursor.rest = .found name text) :
    placeholder .qualifiedName m =
      .ok true { m.moveTo text with captures := m.captures ++ [.qualifiedName name] } :=
  (bind_ok (lexeme_found h)).trans rfl

/-- A pattern that is refused does not match, and malformed text is not met on the way. -/
theorem items_refused {parts : List PatternItem} {afterWord : Bool} {view : List Glimpse}
    (h : refuses parts afterWord view) (anchor : Option (List Char)) {m : Matcher}
    (hs : Shows m.state.skipsComments view m.cursor.rest) :
    ∃ m', items parts afterWord anchor m = .ok none m' := by
  induction parts generalizing afterWord view anchor m with
  | nil => cases h
  | cons part parts ih =>
    cases part with
    | never => exact ⟨m, rfl⟩
    | anchor => exact ih h _ hs
    | gap =>
      change (match skip? view with
        | some rest => refuses parts afterWord rest
        | none => false) = true at h
      split at h
      · rename_i rest hskip
        obtain ⟨text, hscan, hrest⟩ := hs.skip hskip
        rw [items, bind_ok (separated_eq m), bind_ok (skipTrivia_found hscan)]
        split
        · exact ⟨_, rfl⟩
        · exact ih h anchor (m := m.moveTo text) hrest
      · cases h
    | percent =>
      change (match next? '%' view with
        | some rest => refuses parts false rest
        | none => true) = true at h
      rw [items]
      obtain hno | ⟨text, rest, hnext, hyes, hrest⟩ := char_cases '%' hs
      · exact ⟨m, bind_ok hno⟩
      · rw [hnext] at h
        rw [bind_ok hyes, if_pos rfl]
        exact ih h anchor (m := m.moveTo text) hrest
    | char c =>
      rw [items]
      obtain hno | ⟨text, rest, hnext, hyes, hrest⟩ := char_cases c hs
      · exact ⟨m, bind_ok hno⟩
      · rw [refuses, hnext] at h
        dsimp only at h
        rw [bind_ok hyes, if_pos rfl]
        split
        · rename_i hword
          rw [if_pos hword] at h
          rw [bind_ok (wordEnds_eq _)]
          split
          · rename_i hend
            have hends : endsName text := endsName_of_wordEnds hend
            obtain ⟨rest', hended, hrest'⟩ := hrest.ended hends
            rw [hended] at h
            exact ih h anchor (m := m.moveTo text) hrest'
          · exact ⟨_, rfl⟩
        · rename_i hword
          rw [if_neg hword] at h
          exact ih h anchor (m := m.moveTo text) hrest
    | capture kind =>
      have refused (hno : placeholder kind m = .ok false m) :
          ∃ m', items (.capture kind :: parts) afterWord anchor m = .ok none m' :=
        ⟨m, by rw [items, bind_ok hno]; rfl⟩
      cases kind with
      | name =>
        rw [refuses] at h
        split at h
        · rename_i rest hname
          obtain ⟨name, text, htext, hn, hend, hrest⟩ := hs.behindName hname
          rw [items, bind_ok (placeholder_name htext hn hend), if_pos rfl]
          exact ih h anchor (m := { m.moveTo text with captures := _ }) hrest
        · exact refused (placeholder_absent (hs.noName h))
      | qualifiedName =>
        rw [refuses] at h
        split at h
        · rename_i rest hname
          obtain ⟨name, text, hscan, hrest⟩ := hs.behindQualifiedName hname
          rw [items, bind_ok (placeholder_qualifiedName hscan), if_pos rfl]
          exact ih h anchor (m := { m.moveTo text with captures := _ }) hrest
        · have habsent : scanQualifiedName m.cursor.rest = .absent := by
            rw [scanQualifiedName, hs.noName h]
          exact refused (placeholder_absent habsent)
      | string =>
        rw [refuses] at h
        obtain ⟨hdouble, hsingle⟩ := Bool.and_eq_true_iff.1 h
        exact refused (placeholder_absent
          (hs.noString (of_decide_eq_true hdouble) (of_decide_eq_true hsingle)))
      | number => exact refused (placeholder_absent (hs.noNumber h))

theorem pattern_refused {parts : List PatternItem} {view : List Glimpse} {m : Matcher}
    (h : refuses (if m.state.skipsBlanks then .gap :: parts else parts) false view)
    (hs : Shows m.state.skipsComments view m.cursor.rest) :
    pattern parts m = .ok false { m with captures := [] } := by
  let m₀ : Matcher := { m with captures := [] }
  -- A match that fails leaves the matcher in place, so only the answer is to be found.
  suffices hanswer : ∃ m', pattern parts m = .ok false m' by
    obtain ⟨m', hm'⟩ := hanswer
    have hp := pattern_settles parts m
    rw [hm'] at hp
    rw [hm', show m' = _ from hp]
  have leaves {m₁ : Matcher} {rest : List Glimpse}
      (hskip : (if m.state.skipsBlanks then skipTrivia else pure () : Scan Unit) m₀ = .ok () m₁)
      (hr : refuses parts false rest) (hrest : Shows m₁.state.skipsComments rest m₁.cursor.rest) :
      ∃ m', pattern parts m = .ok false m' := by
    obtain ⟨m₂, hitems⟩ := items_refused hr none hrest
    unfold pattern
    dsimp only
    rw [hskip]
    dsimp only
    rw [hitems]
    exact ⟨_, rfl⟩
  by_cases hblanks : m.state.skipsBlanks
  · rw [if_pos hblanks] at h
    change (match skip? view with
      | some rest => refuses parts false rest
      | none => false) = true at h
    split at h
    · rename_i rest hskip
      obtain ⟨text, hscan, hrest⟩ := hs.skip hskip
      have hm₁ : skipTrivia m₀ = .ok () (m₀.moveTo text) := skipTrivia_found hscan
      rw [if_pos hblanks] at leaves
      exact leaves hm₁ h hrest
    · cases h
  · rw [if_neg hblanks] at h leaves
    exact leaves rfl h hs

/-- Whether a rule certainly does not match in a lexical state. -/
def declines (state : LexicalState) (r : Rule) (view : List Glimpse) : Bool :=
  !r.states.contains state ||
    refuses (if state.skipsBlanks then .gap :: r.items else r.items) false view

/-- The same, with the parts of the pattern read off its bytes. -/
def declinesBytes (state : LexicalState) (r : Rule) (view : List Glimpse) : Bool :=
  !r.states.contains state ||
    refuses (if state.skipsBlanks then .gap :: r.itemsOfBytes else r.itemsOfBytes) false view

theorem declines_eq : declines = declinesBytes := by
  funext state r view
  rw [declines, Rule.items_eq, declinesBytes]

/-- Neither matching nor testing the rule does more than to forget captures. -/
def Declined (r : Rule) (m : Matcher) : Prop :=
  ∃ captures, eat r m = .ok false { m with captures } ∧ peek r m = .ok false { m with captures }

theorem declined {r : Rule} {view : List Glimpse} {m : Matcher} (h : declines m.state r view)
    (hs : Shows m.state.skipsComments view m.cursor.rest) : Declined r m := by
  unfold Declined eat peek
  by_cases ha : m.admits r
  · have hstates : r.states.contains m.state := (Bool.and_eq_true_iff.1 ha).1
    rw [declines, hstates] at h
    rw [if_pos ha, if_pos ha, pattern_refused h hs]
    exact ⟨[], rfl, rfl⟩
  · rw [if_neg ha, if_neg ha]
    exact ⟨m.captures, rfl, rfl⟩

end Scan

end XQuerySyntax
