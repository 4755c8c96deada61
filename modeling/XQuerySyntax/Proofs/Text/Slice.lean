import Mathlib.Data.List.TakeWhile
import XQuerySyntax.Proofs.Boundary
import XQuerySyntax.Proofs.Literal.Quoted

/-! Scanners that cut the text at byte offsets. A cut is possible only between two characters, so a scanner
that skips a number of bytes has to know what it skips. Each scanner is given here a second time, with every
skip written as a cut; no cut ever fails, and the answers are those of the scanners over characters. -/

namespace XQuerySyntax

/-! ### Cuts -/

/-- The text from a byte offset on. There is none if the offset lies inside a character or past the end. -/
def sliceFrom? : List Char → Nat → Option (List Char)
  | text, 0 => some text
  | [], _ + 1 => none
  | c :: cs, n + 1 => if c.utf8Size ≤ n + 1 then sliceFrom? cs (n + 1 - c.utf8Size) else none

/-- The text up to a byte offset, with the same condition. -/
def sliceTo? : List Char → Nat → Option (List Char)
  | _, 0 => some []
  | [], _ + 1 => none
  | c :: cs, n + 1 => if c.utf8Size ≤ n + 1 then (sliceTo? cs (n + 1 - c.utf8Size)).map (c :: ·) else none

theorem sliceFrom?_append (before after : List Char) :
    sliceFrom? (before ++ after) (byteLength before) = some after := by
  induction before with
  | nil =>
    rw [List.nil_append, byteLength_nil]
    cases after <;> rfl
  | cons c cs ih =>
    have hpos := c.utf8Size_pos
    obtain ⟨n, hn⟩ : ∃ n, byteLength (c :: cs) = n + 1 := ⟨byteLength (c :: cs) - 1, by rw [byteLength_cons]; omega⟩
    rw [hn, List.cons_append, sliceFrom?, ← hn, byteLength_cons, if_pos (by omega), Nat.add_sub_cancel_left, ih]

theorem sliceTo?_append (before after : List Char) :
    sliceTo? (before ++ after) (byteLength before) = some before := by
  induction before with
  | nil =>
    rw [List.nil_append, byteLength_nil]
    cases after <;> rfl
  | cons c cs ih =>
    have hpos := c.utf8Size_pos
    obtain ⟨n, hn⟩ : ∃ n, byteLength (c :: cs) = n + 1 := ⟨byteLength (c :: cs) - 1, by rw [byteLength_cons]; omega⟩
    rw [hn, List.cons_append, sliceTo?, ← hn, byteLength_cons, if_pos (by omega), Nat.add_sub_cancel_left, ih]
    rfl

/-- A cut divides the text between two characters. -/
theorem eq_append_of_sliceFrom? {text rest : List Char} {n : Nat} (h : sliceFrom? text n = some rest) :
    ∃ before, text = before ++ rest ∧ byteLength before = n := by
  induction text generalizing n with
  | nil =>
    cases n with
    | zero =>
      cases h
      exact ⟨[], rfl, rfl⟩
    | succ n => cases h
  | cons c cs ih =>
    cases n with
    | zero =>
      cases h
      exact ⟨[], rfl, rfl⟩
    | succ n =>
      rw [sliceFrom?] at h
      split at h
      · obtain ⟨before, htext, hn⟩ := ih h
        exact ⟨c :: before, congrArg (c :: ·) htext, by rw [byteLength_cons]; omega⟩
      · cases h

theorem length_of_sliceFrom? {text rest : List Char} {n : Nat} (h : sliceFrom? text (n + 1) = some rest) :
    rest.length < text.length := by
  obtain ⟨before, rfl, hn⟩ := eq_append_of_sliceFrom? h
  cases before with
  | nil => cases hn
  | cons c cs =>
    simp only [List.cons_append, List.length_cons, List.length_append]
    omega

/-- What stands in front of an end of the text, cut off by the bytes that are left. -/
def taken? (text rest : List Char) : Option (List Char) := sliceTo? text (byteLength text - byteLength rest)

theorem taken?_append (before after : List Char) : taken? (before ++ after) after = some before := by
  rw [taken?, byteLength_append, Nat.add_sub_cancel, sliceTo?_append]

/-- Over a character of one byte a cut is possible. -/
theorem sliceFrom?_one {c : Char} (h : c.utf8Size = 1) (cs : List Char) : sliceFrom? (c :: cs) 1 = some cs := by
  have hcut := sliceFrom?_append [c] cs
  rwa [byteLength_cons, h] at hcut

theorem sliceFrom?_two {c d : Char} (hc : c.utf8Size = 1) (hd : d.utf8Size = 1) (cs : List Char) :
    sliceFrom? (c :: d :: cs) 2 = some cs := by
  have hcut := sliceFrom?_append [c, d] cs
  rwa [byteLength_cons, byteLength_cons, hc, hd] at hcut

/-! ### Scanners by cuts

`none` would be a cut that fails. -/

namespace Slicing

/-- A simple name. -/
def name : List Char → Option (Scanned String)
  | [] => some .absent
  | c :: cs =>
    if isNameStart c then
      (taken? (c :: cs) (cs.dropWhile isNameChar)).map fun taken =>
        .found (String.ofList taken) (cs.dropWhile isNameChar)
    else some .absent

theorem name_eq (text : List Char) : name text = some (scanName text) := by
  cases text with
  | nil => rfl
  | cons c cs =>
    have htaken := taken?_append (c :: cs.takeWhile isNameChar) (cs.dropWhile isNameChar)
    rw [List.cons_append, List.takeWhile_append_dropWhile] at htaken
    rw [name, scanName]
    split
    · rw [htaken]
      rfl
    · rfl

/-- A simple name, or two joined by a colon. -/
def qualifiedName (text : List Char) : Option (Scanned LexicalName) :=
  match name text with
  | none => none
  | some (.found first (':' :: rest)) =>
    (name rest).map fun
      | .found second rest' => .found ⟨some first, second⟩ rest'
      | _ => .found ⟨none, first⟩ (':' :: rest)
  | some (.found first rest) => some (.found ⟨none, first⟩ rest)
  | some .absent => some .absent
  | some (.faulty fault place) => some (.faulty fault place)

theorem qualifiedName_eq (text : List Char) : qualifiedName text = some (scanQualifiedName text) := by
  rw [qualifiedName, scanQualifiedName, name_eq]
  rcases scanName text with ⟨first, _ | ⟨c, rest⟩⟩ | _ | ⟨fault, place⟩
  · rfl
  · by_cases hc : c = ':'
    · subst hc
      have hsecond := name_eq rest
      cases hscan : scanName rest <;> simp [hsecond, hscan]
    · simp [hc]
  · rfl
  · rfl

/-- What stands behind one digit or more. -/
def behindDigits? (text : List Char) : Option (List Char) :=
  if text.head?.any Char.isDigit then some (text.dropWhile Char.isDigit) else none

/-- What stands behind digits with an optional point, of which one digit at least is there. -/
def behindMantissa? (text : List Char) : Option (List Char) :=
  match behindDigits? text with
  | some ('.' :: rest) => some (rest.dropWhile Char.isDigit)
  | some rest => some rest
  | none =>
    match text with
    | '.' :: rest => behindDigits? rest
    | _ => none

/-- What stands behind a sign, if one is there. -/
def behindSign : List Char → List Char
  | '+' :: rest => rest
  | '-' :: rest => rest
  | rest => rest

theorem behindSign_eq (text : List Char) : behindSign text =
    (match text with
      | '+' :: rest => (some '+', rest)
      | '-' :: rest => (some '-', rest)
      | _ => (none, text) : Option Char × List Char).2 := by
  cases text with
  | nil => rfl
  | cons c cs =>
    by_cases hplus : c = '+'
    · subst hplus
      rfl
    · by_cases hminus : c = '-'
      · subst hminus
        rfl
      · simp [behindSign, hplus, hminus]

/-- What stands behind an exponent, if a whole one is there. -/
def behindExponent? : List Char → Option (List Char)
  | [] => none
  | mark :: rest => if mark = 'e' ∨ mark = 'E' then behindDigits? (behindSign rest) else none

theorem scanDigits_eq (text : List Char) :
    scanDigits text = ([], text) ∧ behindDigits? text = none ∨
      ∃ c cs, scanDigits text = (c :: cs, text.dropWhile Char.isDigit) ∧ (∀ d ∈ c :: cs, d.isDigit) ∧
        behindDigits? text = some (text.dropWhile Char.isDigit) ∧
        text = c :: cs ++ text.dropWhile Char.isDigit := by
  cases text with
  | nil => exact .inl ⟨rfl, rfl⟩
  | cons c cs =>
    by_cases hc : c.isDigit = true
    · right
      refine ⟨c, cs.takeWhile Char.isDigit, by simp [scanDigits, hc], ?_, by simp [behindDigits?, hc], ?_⟩
      · rw [← List.takeWhile_cons_of_pos hc]
        exact List.all_eq_true.1 List.all_takeWhile
      · rw [List.dropWhile_cons_of_pos hc, List.cons_append, List.takeWhile_append_dropWhile]
    · exact .inl ⟨by simp [scanDigits, hc], by simp [behindDigits?, hc]⟩

theorem contains_point {whole : List Char} (hw : ∀ d ∈ whole, d.isDigit) (fraction : Option (List Char)) :
    (Numeral.text ⟨whole, fraction, none⟩).contains '.' = fraction.isSome := by
  have hpoint : '.' ∉ whole := fun h => absurd (hw _ h) (by decide)
  cases fraction with
  | none => simpa [Numeral.text] using hpoint
  | some digits => simp [Numeral.text]

/-- A mantissa stands in front of what is behind it, and has a point exactly if a fraction is written. -/
theorem scanMantissa_eq (text : List Char) :
    scanMantissa text = none ∧ behindMantissa? text = none ∨
      ∃ whole fraction rest, scanMantissa text = some (whole, fraction, rest) ∧ behindMantissa? text = some rest ∧
        (∀ d ∈ whole, d.isDigit) ∧ text = Numeral.text ⟨whole, fraction, none⟩ ++ rest := by
  obtain ⟨hscan, hbehind⟩ | ⟨c, cs, hscan, hdigits, hbehind, htext⟩ := scanDigits_eq text
  · cases text with
    | nil => exact .inl ⟨rfl, rfl⟩
    | cons c cs =>
      by_cases hc : c = '.'
      · subst hc
        have hmantissa : behindMantissa? ('.' :: cs) = behindDigits? cs := by rw [behindMantissa?, hbehind]
        obtain ⟨hscan', hbehind'⟩ | ⟨d, ds, hscan', -, hbehind', htext'⟩ := scanDigits_eq cs
        · refine .inl ⟨?_, hmantissa.trans hbehind'⟩
          simp only [scanMantissa, hscan, hscan']
        · refine .inr ⟨[], some (d :: ds), cs.dropWhile Char.isDigit, ?_, hmantissa.trans hbehind',
            fun _ h => (nomatch h), ?_⟩
          · simp only [scanMantissa, hscan, hscan']
          · simpa [Numeral.text] using htext'
      · refine .inl ⟨?_, ?_⟩
        · rw [scanMantissa, hscan]
          simp [hc]
        · rw [behindMantissa?, hbehind]
          simp [hc]
  · right
    unfold scanMantissa behindMantissa?
    rw [hscan, hbehind]
    cases hrest : text.dropWhile Char.isDigit with
    | nil =>
      rw [hrest] at htext
      exact ⟨c :: cs, none, [], rfl, rfl, hdigits, by simpa [Numeral.text] using htext⟩
    | cons d ds =>
      rw [hrest] at htext
      by_cases hd : d = '.'
      · subst hd
        refine ⟨c :: cs, some (ds.takeWhile Char.isDigit), ds.dropWhile Char.isDigit, rfl, rfl, hdigits, ?_⟩
        simpa [Numeral.text, List.takeWhile_append_dropWhile] using htext
      · refine ⟨c :: cs, none, d :: ds, by simp [hd], by simp [hd], hdigits, ?_⟩
        simpa [Numeral.text] using htext

theorem scanExponent_eq (text : List Char) :
    scanExponent text = (none, text) ∧ behindExponent? text = none ∨
      ∃ exponent rest, scanExponent text = (some exponent, rest) ∧ behindExponent? text = some rest ∧
        text = Numeral.text ⟨[], none, some exponent⟩ ++ rest := by
  cases text with
  | nil => exact .inl ⟨rfl, rfl⟩
  | cons mark rest =>
    by_cases hmark : mark = 'e' ∨ mark = 'E'
    · unfold scanExponent behindExponent?
      dsimp -zeta only
      rw [if_pos hmark, if_pos hmark]
      extract_lets signed
      have hsigned : rest = signed.1.toList ++ signed.2 := by
        dsimp only [signed]
        split <;> rfl
      have hdigits : behindSign rest = signed.2 := by
        exact behindSign_eq rest
      rw [hdigits]
      obtain ⟨hscan, hbehind⟩ | ⟨c, cs, hscan, -, hbehind, htext⟩ := scanDigits_eq signed.2
      · exact .inl ⟨by rw [hscan], hbehind⟩
      · refine .inr ⟨(mark, signed.1, c :: cs), _, by rw [hscan], hbehind, ?_⟩
        rw [hsigned]
        simpa [Numeral.text] using htext
    · unfold scanExponent behindExponent?
      exact .inl ⟨if_neg hmark, if_neg hmark⟩

theorem text_append (whole : List Char) (fraction : Option (List Char))
    (exponent : Option (Char × Option Char × List Char)) :
    Numeral.text ⟨whole, fraction, exponent⟩ = Numeral.text ⟨whole, fraction, none⟩ ++ Numeral.text ⟨[], none, exponent⟩ := by
  simp [Numeral.text]

/-- The longest numeral: its kind and its text. -/
def numeral (text : List Char) : Option (Scanned (NumeralKind × List Char)) :=
  match behindMantissa? text with
  | none => some .absent
  | some behind => do
    let mantissa ← taken? text behind
    let rest := (behindExponent? behind).getD behind
    let _ ← taken? behind rest
    if rest.head?.any isNameStart then return .faulty .malformedNumber rest
    let written ← taken? text rest
    let kind : NumeralKind :=
      if (behindExponent? behind).isSome then .double
      else if mantissa.contains '.' then .decimal
      else .integer
    return .found (kind, written) rest

theorem numeral_eq (text : List Char) :
    numeral text = some ((scanNumeral text).map fun n => (n.kind, n.text)) := by
  obtain ⟨hscan, hbehind⟩ | ⟨whole, fraction, behind, hscan, hbehind, hdigits, htext⟩ := scanMantissa_eq text
  · rw [numeral, hbehind, scanNumeral, hscan]
    rfl
  · have hmantissa : taken? text behind = some (Numeral.text ⟨whole, fraction, none⟩) := by
      rw [htext, taken?_append]
    have hpoint := contains_point hdigits fraction
    rw [numeral, hbehind, scanNumeral, hscan]
    obtain ⟨hscan', hbehind'⟩ | ⟨exponent, rest, hscan', hbehind', htext'⟩ := scanExponent_eq behind
    · have hnothing : taken? behind behind = some [] := taken?_append [] behind
      simp only [hmantissa, hbehind', hscan', hnothing, hpoint, Option.bind_eq_bind, Option.bind_some,
        Option.getD_none]
      split
      · rfl
      · simp [Scanned.map, Numeral.kind]
    · have hexponent : taken? behind rest = some (Numeral.text ⟨[], none, some exponent⟩) := by
        rw [htext', taken?_append]
      have hwritten : taken? text rest = some (Numeral.text ⟨whole, fraction, some exponent⟩) := by
        rw [htext, htext', ← List.append_assoc, ← text_append, taken?_append]
      simp only [hmantissa, hbehind', hscan', hexponent, hwritten, Option.bind_eq_bind, Option.bind_some,
        Option.getD_some]
      split
      · rfl
      · simp [Scanned.map, Numeral.kind]

theorem length_le_of_dropWhile {p : Char → Bool} {text rest : List Char} (h : text.dropWhile p = rest) :
    rest.length ≤ text.length := h ▸ (List.dropWhile_suffix p).length_le

theorem head_of_dropWhile {p : Char → Bool} {text cs : List Char} {c : Char} (h : text.dropWhile p = c :: cs) :
    p c = false := by
  have hhead := List.head?_dropWhile_not p text
  rwa [h] at hhead

/-- What stands for itself in a literal. -/
def isPlain (quote c : Char) : Bool := c ≠ quote && c ≠ '&'

/-- The characters of a literal up to its closing quote; absent when the text ends first. -/
def stringBody (quote : Char) (text : List Char) : Option (Scanned (List Char)) :=
  let chunk := text.takeWhile (isPlain quote)
  match hrest : text.dropWhile (isPlain quote) with
  | [] => some .absent
  | c :: cs =>
    have := length_le_of_dropWhile hrest
    if c = '&' then
      match hreference : scanReference (c :: cs) with
      | .found value rest =>
        have := length_of_scanReference hreference
        (stringBody quote rest).map (Scanned.map (chunk ++ value :: ·))
      | .absent => some .absent
      | .faulty fault place => some (.faulty fault place)
    else
      match sliceFrom? (c :: cs) 1 with
      | none => none
      | some behind =>
        if behind.head? = some quote then
          match hslice : sliceFrom? (c :: cs) 2 with
          | none => none
          | some rest =>
            have := length_of_sliceFrom? hslice
            (stringBody quote rest).map (Scanned.map (chunk ++ quote :: ·))
        else some (.found chunk behind)
termination_by text.length

/-- Plain characters are read first. -/
theorem scanStringBody_takeWhile {quote : Char} (hand : quote ≠ '&') (text : List Char) :
    scanStringBody quote text =
      (scanStringBody quote (text.dropWhile (isPlain quote))).map (text.takeWhile (isPlain quote) ++ ·) := by
  have hplain : ∀ text : List Char, Encodes quote (text.takeWhile (isPlain quote)) (text.takeWhile (isPlain quote)) := by
    intro text
    induction text with
    | nil => exact .nil
    | cons c cs ih =>
      rw [List.takeWhile_cons]
      split
      · rename_i hc
        simp only [isPlain, Bool.and_eq_true, decide_eq_true_eq] at hc
        exact .plain c hc.1 hc.2 ih
      · exact .nil
  have hscan := (hplain text).scan hand (text.dropWhile (isPlain quote))
  rwa [List.takeWhile_append_dropWhile] at hscan

theorem stringBody_eq {quote : Char} (hquote : quote = '"' ∨ quote = '\'') (text : List Char) :
    stringBody quote text = some (scanStringBody quote text) := by
  have hand : quote ≠ '&' := by rcases hquote with rfl | rfl <;> decide
  have hsize : quote.utf8Size = 1 := by rcases hquote with rfl | rfl <;> rfl
  rw [stringBody.eq_def, scanStringBody_takeWhile hand]
  generalize text.takeWhile (isPlain quote) = chunk
  dsimp only
  split
  · rename_i hrest
    rw [hrest, scanStringBody.eq_def]
    rfl
  · rename_i c cs hrest
    have hle := length_le_of_dropWhile hrest
    have hstop := head_of_dropWhile hrest
    rw [hrest]
    split
    · rename_i hc
      subst hc
      split
      · rename_i value rest hs
        have hlt := length_of_scanReference hs
        rw [stringBody_eq hquote rest, scanStringBody_reference hs, Scanned.map_map]
        rfl
      · rename_i hs
        rw [scanStringBody.eq_def]
        dsimp only
        rw [if_pos rfl]
        split <;> rename_i heq <;> rw [hs] at heq <;> cases heq
        rfl
      · rename_i hs
        rw [scanStringBody.eq_def]
        dsimp only
        rw [if_pos rfl]
        split <;> rename_i heq <;> rw [hs] at heq <;> cases heq
        rfl
    · rename_i hc
      obtain rfl : c = quote := by simpa [isPlain, hc] using hstop
      rw [sliceFrom?_one hsize]
      dsimp only
      split
      · rename_i hhead
        obtain ⟨rest, rfl⟩ := List.head?_eq_some_iff.1 hhead
        have htwo := sliceFrom?_two hsize hsize rest
        split <;> rename_i hslice <;> rw [htwo] at hslice <;> cases hslice
        have hlt := length_of_sliceFrom? htwo
        rw [stringBody_eq hquote rest, scanStringBody_doubled hand, Scanned.map_map]
        rfl
      · rename_i hhead
        rw [scanStringBody_end hand fun d hd hdc => hhead (hdc ▸ hd)]
        simp [Scanned.map]
termination_by text.length

/-- A quoted literal with its quotes removed and its references resolved. -/
def stringLiteral : List Char → Option (Scanned String)
  | [] => some .absent
  | c :: cs =>
    if c = '"' ∨ c = '\'' then
      (stringBody c cs).map fun
        | .found value rest => .found (String.ofList value) rest
        | .absent => .faulty (.unterminated "string literal") (c :: cs)
        | .faulty fault place => .faulty fault place
    else some .absent

theorem stringLiteral_eq (text : List Char) : stringLiteral text = some (scanStringLiteral text) := by
  cases text with
  | nil => rfl
  | cons c cs =>
    rw [stringLiteral, scanStringLiteral]
    split
    · rename_i hc
      rw [stringBody_eq hc]
      cases scanStringBody c cs <;> rfl
    · rfl

/-- What neither opens nor closes a comment. -/
def isCommentText (c : Char) : Bool := c ≠ '(' && c ≠ ':'

/-- The text behind as many closers as there are comments open. -/
def behindComments (depth : Nat) (text : List Char) : Option (Option (List Char)) :=
  match depth with
  | 0 => some (some text)
  | depth + 1 =>
    match hrest : text.dropWhile isCommentText with
    | [] => some none
    | c :: cs =>
      have := length_le_of_dropWhile hrest
      if ['(', ':'].isPrefixOf (c :: cs) then
        match hslice : sliceFrom? (c :: cs) 2 with
        | none => none
        | some rest =>
          have := length_of_sliceFrom? hslice
          behindComments (depth + 2) rest
      else if [':', ')'].isPrefixOf (c :: cs) then
        match hslice : sliceFrom? (c :: cs) 2 with
        | none => none
        | some rest =>
          have := length_of_sliceFrom? hslice
          behindComments depth rest
      else
        match hslice : sliceFrom? (c :: cs) 1 with
        | none => none
        | some rest =>
          have := length_of_sliceFrom? hslice
          behindComments (depth + 1) rest
termination_by text.length

theorem skipCommentBody_dropWhile (depth : Nat) (text : List Char) :
    skipCommentBody depth text = skipCommentBody depth (text.dropWhile isCommentText) := by
  induction text with
  | nil => rfl
  | cons c cs ih =>
    by_cases hc : isCommentText c = true
    · rw [List.dropWhile_cons_of_pos hc, ← ih]
      simp only [isCommentText, Bool.and_eq_true, decide_eq_true_eq] at hc
      exact skipCommentBody.eq_5 _ _ _ (fun _ h _ => hc.1 h) (fun _ _ h _ => hc.2 h) fun _ _ _ h _ => hc.2 h
    · rw [List.dropWhile_cons_of_neg hc]

theorem behindComments_eq (depth : Nat) (text : List Char) :
    behindComments (depth + 1) text = some (skipCommentBody depth text) := by
  rw [behindComments.eq_def, skipCommentBody_dropWhile]
  dsimp only
  split
  · rename_i hrest
    rw [hrest, skipCommentBody]
  · rename_i c cs hrest
    have hle := length_le_of_dropWhile hrest
    have hstop := head_of_dropWhile hrest
    rw [hrest]
    split
    · rename_i hopen
      obtain ⟨rest, hshape⟩ := List.isPrefixOf_iff_prefix.1 hopen
      change '(' :: ':' :: rest = c :: cs at hshape
      cases hshape
      have htwo : sliceFrom? ('(' :: ':' :: rest) 2 = some rest := sliceFrom?_two rfl rfl rest
      have hlt := length_of_sliceFrom? htwo
      split <;> rename_i hslice <;> cases htwo.symm.trans hslice
      exact behindComments_eq (depth + 1) rest
    · split
      · rename_i hclose
        obtain ⟨rest, hshape⟩ := List.isPrefixOf_iff_prefix.1 hclose
        change ':' :: ')' :: rest = c :: cs at hshape
        cases hshape
        have htwo : sliceFrom? (':' :: ')' :: rest) 2 = some rest := sliceFrom?_two rfl rfl rest
        have hlt := length_of_sliceFrom? htwo
        split <;> rename_i hslice <;> cases htwo.symm.trans hslice
        cases depth with
        | zero => rw [behindComments.eq_def]; rfl
        | succ depth => exact behindComments_eq depth rest
      · rename_i hopen hclose
        have hsize : c.utf8Size = 1 := by
          have hc : c = '(' ∨ c = ':' := by
            simp only [isCommentText, Bool.and_eq_false_iff, decide_eq_false_iff_not, not_not] at hstop
            exact hstop
          rcases hc with rfl | rfl <;> rfl
        have hone := sliceFrom?_one hsize cs
        have hlt := length_of_sliceFrom? hone
        split <;> rename_i hslice <;> cases hone.symm.trans hslice
        have hnot {d e : Char} {rest : List Char} (h : ¬ [d, e].isPrefixOf (c :: cs) = true) (hc : c = d) :
            cs ≠ e :: rest := by
          rintro rfl
          exact h (List.isPrefixOf_iff_prefix.2 ⟨rest, by rw [hc]; rfl⟩)
        rw [behindComments_eq depth cs, skipCommentBody.eq_5 _ _ _ (fun _ => hnot hopen)
          (fun _ _ => hnot hclose) fun _ _ _ => hnot hclose]
termination_by text.length

/-- A comment with its delimiters. -/
def comment (text : List Char) : Option (Scanned String) :=
  if startsComment text then
    match (sliceFrom? text 2).bind (behindComments 1) with
    | none => none
    | some none => some (.faulty (.unterminated "comment") text)
    | some (some rest) => (taken? text rest).map fun taken => .found (String.ofList taken) rest
  else some .absent

theorem comment_eq (text : List Char) : comment text = some (scanComment text) := by
  rw [comment, scanComment]
  split
  · rename_i hstarts
    obtain ⟨cs, rfl⟩ : ∃ cs, text = '(' :: ':' :: cs := by
      unfold startsComment at hstarts
      split at hstarts
      · exact ⟨_, rfl⟩
      · cases hstarts
    have htwo : sliceFrom? ('(' :: ':' :: cs) 2 = some cs := sliceFrom?_two rfl rfl cs
    have hdrop : List.drop 2 ('(' :: ':' :: cs) = cs := rfl
    rw [htwo, Option.bind_some, behindComments_eq, hdrop]
    cases hskip : skipCommentBody 0 cs with
    | none => rfl
    | some rest =>
      obtain ⟨before, hbefore⟩ := suffix_of_skipCommentBody hskip
      have htext : '(' :: ':' :: cs = ('(' :: ':' :: before) ++ rest := by rw [← hbefore]; rfl
      dsimp only
      rw [htext, taken?_append, List.length_append, Nat.add_sub_cancel, List.take_left]
      rfl
  · rfl

theorem length_of_comment {text rest : List Char} {value : String} (h : comment text = some (.found value rest)) :
    rest.length < text.length := by
  rw [comment_eq, scanComment] at h
  split at h
  · split at h
    · rename_i hskip
      cases h
      have hlt := length_of_skipCommentBody hskip
      rw [List.length_drop] at hlt
      omega
    · cases h
  · cases h

/-- Blanks, and comments too if they are allowed. -/
def trivia (comments : Bool) (text : List Char) : Option (Scanned Unit) :=
  if comments && startsComment (text.dropWhile isBlank) then
    match hcomment : comment (text.dropWhile isBlank) with
    | none => none
    | some (.found _ rest) =>
      have := length_of_comment hcomment
      have := (List.dropWhile_suffix (l := text) isBlank).length_le
      trivia comments rest
    | some .absent => some .absent
    | some (.faulty fault place) => some (.faulty fault place)
  else some (.found () (text.dropWhile isBlank))
termination_by text.length

theorem trivia_eq (comments : Bool) (text : List Char) : trivia comments text = some (scanTrivia comments text) := by
  rw [trivia.eq_def, scanTrivia_eq]
  split
  · rename_i hstarts
    have hcomment := comment_eq (text.dropWhile isBlank)
    rw [scanComment, if_pos (Bool.and_eq_true_iff.1 hstarts).2] at hcomment
    have hle := (List.dropWhile_suffix (l := text) isBlank).length_le
    cases hskip : skipCommentBody 0 ((text.dropWhile isBlank).drop 2) with
    | none =>
      rw [hskip] at hcomment
      split <;> rename_i hs <;> cases hcomment.symm.trans hs
      rfl
    | some rest =>
      rw [hskip] at hcomment
      have hlt := length_of_comment hcomment
      split <;> rename_i hs <;> cases hcomment.symm.trans hs
      exact trivia_eq comments rest
  · rfl
termination_by text.length

end Slicing

end XQuerySyntax
