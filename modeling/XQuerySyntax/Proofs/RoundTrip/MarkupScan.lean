import Mathlib.Data.List.Basic
import Mathlib.Data.List.TakeWhile
import XQuerySyntax.Proofs.RoundTrip.MarkupTree

/-! What the scanners make of serialized markup: references, text up to what ends it, and the bodies of
literal sections, comments and processing instructions up to their terminators. -/

namespace XQuerySyntax

variable {c : Char} {text rest : List Char}

/-! ### References -/

theorem range_of_isHexDigit (h : isHexDigit c) : 48 ≤ c.toNat ∧ c.toNat ≤ 102 := by
  simp only [isHexDigit, Char.isDigit, Bool.or_eq_true, Bool.and_eq_true, decide_eq_true_eq,
    Char.le_def, UInt32.le_iff_toNat_le, ge_iff_le] at h
  change ((48 ≤ c.toNat ∧ c.toNat ≤ 57) ∨ (97 ≤ c.toNat ∧ c.toNat ≤ 102)) ∨
    (65 ≤ c.toNat ∧ c.toNat ≤ 70) at h
  omega

theorem isReferenceChar_of_isHexDigit (h : isHexDigit c) : isReferenceChar c := by
  have hrange := range_of_isHexDigit h
  have hspace : Text.isSpace c = false := by
    refine List.any_eq_false.2 fun range hmem => ?_
    simp only [List.mem_cons, List.not_mem_nil, or_false] at hmem
    simp only [Bool.and_eq_true, decide_eq_true_eq]
    rcases hmem with rfl | rfl | rfl | rfl | rfl | rfl | rfl | rfl | rfl | rfl <;> omega
  have hother : c ≠ ';' ∧ c ≠ '&' := by
    constructor
    · rintro rfl
      exact absurd h (by decide)
    · rintro rfl
      exact absurd h (by decide)
  simp [isReferenceChar, hspace, hother]

theorem isHexDigit_of_isDigit (h : c.isDigit) : isHexDigit c := by
  rw [isHexDigit, h, Bool.true_or, Bool.true_or]

theorem scanReference_body {body : List Char} (hne : body ≠ [])
    (hbody : ∀ d ∈ body, isReferenceChar d) (h : referencedChar body = .ok c) (rest : List Char) :
    scanReference ('&' :: (body ++ ';' :: rest)) = .found c rest := by
  have hsemicolon : ∀ d ∈ (';' :: rest).head?, isReferenceChar d = false := by
    rintro _ ⟨⟩
    rfl
  obtain ⟨htake, hdrop⟩ := takeWhile_append hbody hsemicolon
  obtain ⟨d, body, rfl⟩ := List.exists_cons_of_ne_nil hne
  rw [scanReference, htake, hdrop]
  simp only [h]

/-- A reference stands between an ampersand and a semicolon. -/
theorem of_scanReference (h : scanReference text = .found c rest) :
    ∃ body, text = '&' :: (body ++ ';' :: rest) ∧ body ≠ [] ∧ (∀ d ∈ body, isReferenceChar d) ∧
      referencedChar body = .ok c := by
  unfold scanReference at h
  split at h
  · rename_i cs
    split at h
    · rename_i d body rest' htake hdrop
      split at h <;> rename_i hchar <;> cases h
      have hcs : cs = d :: body ++ ';' :: rest := by
        rw [← htake, ← hdrop, List.takeWhile_append_dropWhile]
      refine ⟨d :: body, by rw [hcs], List.cons_ne_nil _ _, ?_, hchar⟩
      rw [← htake]
      exact fun _ => List.mem_takeWhile_imp
    · cases h
  · cases h

theorem charOfCodePoint_toNat (h : isXmlCodePoint c.toNat) : charOfCodePoint c.toNat = .ok c := by
  rw [charOfCodePoint, if_pos h, Char.ofNat_toNat]

theorem referencedChar_decimal {digits : List Char} (hne : digits ≠ [])
    (hdigits : ∀ d ∈ digits, d.isDigit) :
    referencedChar ('#' :: digits) = charOfCodePoint (Decimal.ofDigits digits) := by
  obtain ⟨d, digits, rfl⟩ := List.exists_cons_of_ne_nil hne
  have hx : d ≠ 'x' := by
    rintro rfl
    exact absurd (hdigits 'x' List.mem_cons_self) (by decide)
  have hall : (d :: digits).all Char.isDigit := List.all_eq_true.2 hdigits
  unfold referencedChar
  repeat rw [String.toList_ofList]
  simp [hx, hall]

theorem referencedChar_hexadecimal {digits : List Char} (hne : digits ≠ [])
    (hdigits : ∀ d ∈ digits, isHexDigit d) :
    referencedChar ('#' :: 'x' :: digits) = charOfCodePoint (ofHexDigits digits) := by
  have hall : digits.all isHexDigit := List.all_eq_true.2 hdigits
  unfold referencedChar
  repeat rw [String.toList_ofList]
  simp [hne, hall]

/-- A reference is read as its character. -/
theorem Reference.scan (h : Reference c text) (rest : List Char) :
    scanReference (text ++ rest) = .found c rest := by
  cases h with
  | named h =>
    rw [List.cons_append, List.append_assoc]
    exact scanReference_named h rest
  | @decimal digits hne hdigits hvalue hxml =>
    have hbody : ∀ d ∈ '#' :: digits, isReferenceChar d := by
      intro d hd
      rcases List.mem_cons.1 hd with rfl | hd
      · rfl
      · exact isReferenceChar_of_isHexDigit (isHexDigit_of_isDigit (hdigits d hd))
    have hchar : referencedChar ('#' :: digits) = .ok c := by
      rw [referencedChar_decimal hne hdigits, hvalue, charOfCodePoint_toNat hxml]
    have hscan := scanReference_body (List.cons_ne_nil _ _) hbody hchar rest
    simpa using hscan
  | @hexadecimal digits hne hdigits hvalue hxml =>
    have hbody : ∀ d ∈ '#' :: 'x' :: digits, isReferenceChar d := by
      intro d hd
      rcases List.mem_cons.1 hd with rfl | hd
      · rfl
      rcases List.mem_cons.1 hd with rfl | hd
      · rfl
      · exact isReferenceChar_of_isHexDigit (hdigits d hd)
    have hchar : referencedChar ('#' :: 'x' :: digits) = .ok c := by
      rw [referencedChar_hexadecimal hne hdigits, hvalue, charOfCodePoint_toNat hxml]
    have hscan := scanReference_body (List.cons_ne_nil _ _) hbody hchar rest
    simpa using hscan

theorem Reference.ampersand (h : Reference c text) : ∃ text', text = '&' :: text' := by
  cases h with
  | named | decimal | hexadecimal => exact ⟨_, rfl⟩

/-! ### Text -/

/-- The delimiter of an attribute value, or none in element content. -/
def IsDelimiter (delimiter : Option Char) : Prop :=
  delimiter = none ∨ delimiter = some '"' ∨ delimiter = some '\''

/-- Text ends here. -/
def EndsText (delimiter : Option Char) (rest : List Char) : Prop :=
  scanMarkupRun delimiter rest = .found .empty rest

variable {delimiter : Option Char} {value body : List Char}

theorem endsText_markup (rest : List Char) : EndsText none ('<' :: rest) := by
  unfold EndsText
  rw [scanMarkupRun.eq_def]
  rfl

theorem endsText_enclosed (hdelimiter : IsDelimiter delimiter) (rest : List Char) :
    EndsText delimiter ('{' :: '$' :: rest) := by
  unfold EndsText
  rw [scanMarkupRun.eq_def]
  rcases hdelimiter with rfl | rfl | rfl <;> rfl

/-- A brace that is written twice is text in every place. -/
theorem scanMarkupRun_brace (hc : c = '{' ∨ c = '}') (rest : List Char) :
    scanMarkupRun delimiter (c :: c :: rest) =
      (scanMarkupRun delimiter rest).map (.consEscaped c) := by
  have hrun : endsLiteralRun delimiter c := by
    rcases hc with rfl | rfl <;> simp [endsLiteralRun]
  rw [scanMarkupRun.eq_def]
  dsimp only
  rw [if_pos hrun, if_pos ⟨hc, rfl⟩]
  rfl

/-- A delimiter is text if it is written twice. -/
theorem scanMarkupRun_delimiter {quote : Char} (hquote : quote = '"' ∨ quote = '\'')
    (rest : List Char) : scanMarkupRun (some quote) (quote :: rest) =
      if rest.head? = some quote then
        (scanMarkupRun (some quote) (rest.drop 1)).map (.consEscaped quote)
      else .found .empty (quote :: rest) := by
  rw [scanMarkupRun.eq_def]
  rcases hquote with rfl | rfl <;> simp [endsLiteralRun]

theorem scanMarkupRun_reference {cs : List Char} (h : scanReference ('&' :: cs) = .found c rest) :
    scanMarkupRun delimiter ('&' :: cs) =
      (scanMarkupRun delimiter rest).map (.consEscaped c) := by
  have hrun : endsLiteralRun delimiter '&' := by simp [endsLiteralRun]
  rw [scanMarkupRun.eq_def]
  dsimp only
  rw [if_pos hrun, if_neg (fun h => absurd h.1 (by decide)), if_neg (by decide), if_pos rfl]
  split
  · rename_i heq
    rw [h] at heq
    cases heq
    rfl
  · rename_i heq
    rw [h] at heq
    cases heq
  · rename_i heq
    rw [h] at heq
    cases heq

theorem endsText_delimiter {quote : Char} (hquote : quote = '"' ∨ quote = '\'')
    (hrest : ∀ c ∈ rest.head?, c ≠ quote) : EndsText (some quote) (quote :: rest) := by
  have hother : ¬rest.head? = some quote := fun h => hrest quote h rfl
  unfold EndsText
  rw [scanMarkupRun_delimiter hquote, if_neg hother]

/-- Written text is read up to where it ends. -/
theorem scanMarkupRun_append (hdelimiter : IsDelimiter delimiter)
    (h : MarkupBody delimiter value body) (hrest : EndsText delimiter rest) :
    ∃ boundary, scanMarkupRun delimiter (body ++ rest) = .found ⟨value, boundary⟩ rest := by
  induction h with
  | nil => exact ⟨_, hrest⟩
  | @literal value body c hrun hblank _ ih =>
    obtain ⟨boundary, hscan⟩ := ih
    have hchar : (if delimiter.isSome && isBlank c then ' ' else c) = c := by
      split
      · rename_i h
        obtain ⟨hsome, hc⟩ := Bool.and_eq_true_iff.1 h
        exact (hblank hsome hc).symm
      · rfl
    refine ⟨isBlank c && boundary, ?_⟩
    rw [List.cons_append, scanMarkupRun.eq_def]
    dsimp only
    rw [hrun, if_neg Bool.false_ne_true, hscan]
    change Scanned.found (MarkupRun.mk ((if delimiter.isSome && isBlank c then ' ' else c) :: value)
      (isBlank c && boundary)) rest = _
    rw [hchar]
  | @doubled value body c hc _ ih =>
    obtain ⟨boundary, hscan⟩ := ih
    refine ⟨false, ?_⟩
    rw [List.cons_append, List.cons_append]
    by_cases hbrace : c = '{' ∨ c = '}'
    · rw [scanMarkupRun_brace hbrace, hscan]
      rfl
    · obtain rfl := (hc.resolve_left fun h => hbrace (.inl h)).resolve_left fun h => hbrace (.inr h)
      have hquote : c = '"' ∨ c = '\'' := by simpa [IsDelimiter] using hdelimiter
      rw [scanMarkupRun_delimiter hquote, List.head?_cons, if_pos rfl, List.drop_one, List.tail_cons,
        hscan]
      rfl
  | @reference value body text c hc _ ih =>
    obtain ⟨boundary, hscan⟩ := ih
    obtain ⟨text', rfl⟩ := hc.ampersand
    refine ⟨false, ?_⟩
    have hreference := hc.scan (body ++ rest)
    rw [List.cons_append] at hreference
    rw [List.append_assoc, List.cons_append, scanMarkupRun_reference hreference, hscan]
    rfl

theorem MarkupBody.ne_nil (h : MarkupBody delimiter value body) (hne : value ≠ []) : body ≠ [] := by
  cases h with
  | nil => exact absurd rfl hne
  | literal | doubled => exact List.cons_ne_nil _ _
  | reference c hc =>
    obtain ⟨text', rfl⟩ := hc.ampersand
    exact List.cons_ne_nil _ _

/-- Written text does not begin like markup. -/
theorem MarkupBody.head_ne (hdelimiter : IsDelimiter delimiter) (h : MarkupBody delimiter value body) :
    ∀ c ∈ body.head?, c ≠ '<' := by
  cases h with
  | nil =>
    rintro _ ⟨⟩
  | literal c hrun =>
    rintro _ ⟨⟩ rfl
    cases hrun
  | doubled c hc =>
    rintro _ ⟨⟩ rfl
    rcases hdelimiter with rfl | rfl | rfl <;> simp at hc
  | reference c hc =>
    obtain ⟨text', rfl⟩ := hc.ampersand
    rintro _ ⟨⟩
    decide

theorem scanMarkupText_append (hdelimiter : IsDelimiter delimiter)
    (h : MarkupBody delimiter value body) (hne : value ≠ []) (hrest : EndsText delimiter rest) :
    ∃ boundary, scanMarkupText delimiter (body ++ rest) =
      .found ⟨String.ofList value, boundary⟩ rest := by
  obtain ⟨boundary, hscan⟩ := scanMarkupRun_append hdelimiter h hrest
  have hsome := List.length_pos_iff.2 (h.ne_nil hne)
  have hlength : ¬rest.length = (body ++ rest).length := by
    rw [List.length_append]
    omega
  refine ⟨boundary, ?_⟩
  unfold scanMarkupText
  rw [hscan]
  dsimp only
  rw [if_neg hlength]

/-- Where text ends there is none. -/
theorem scanMarkupText_absent (hrest : EndsText delimiter rest) :
    scanMarkupText delimiter rest = .absent := by
  have hscan : scanMarkupRun delimiter rest = .found .empty rest := hrest
  unfold scanMarkupText
  rw [hscan]
  dsimp only
  rw [if_pos rfl]

/-! ### Literal values -/

theorem of_map_found {α β : Type} {f : α → β} {r : Scanned α} {b : β}
    (h : r.map f = .found b rest) : ∃ a, r = .found a rest ∧ f a = b := by
  cases r with
  | found a rest' =>
    cases h
    exact ⟨a, rfl, rfl⟩
  | absent | faulty => cases h

variable {quote : Char} {run : MarkupRun}

theorem scanMarkupRun_literal {delimiter : Option Char} {cs : List Char}
    (h : endsLiteralRun delimiter c = false) : scanMarkupRun delimiter (c :: cs) =
      (scanMarkupRun delimiter cs).map (.consLiteral delimiter.isSome c) := by
  rw [scanMarkupRun.eq_def]
  dsimp only
  rw [h, if_neg Bool.false_ne_true]

/-- Where a value goes on with anything but text there is no text. -/
theorem scanMarkupRun_open {cs : List Char} (hrun : endsLiteralRun (some quote) c)
    (hbrace : ¬((c = '{' ∨ c = '}') ∧ cs.head? = some c)) (hreference : c ≠ '&')
    (hquote : ¬(c = quote ∧ cs.head? = some c)) {tail : List Char}
    (h : scanMarkupRun (some quote) (c :: cs) = .found run tail) :
    run = .empty ∧ tail = c :: cs := by
  have hquote' : ¬(some c = some quote ∧ cs.head? = some c) := fun h => hquote ⟨Option.some.inj h.1, h.2⟩
  rw [scanMarkupRun.eq_def] at h
  dsimp only at h
  rw [if_pos hrun, if_neg hbrace] at h
  split at h
  · cases h
  split at h
  · cases h
  cases h
  exact ⟨rfl, rfl⟩

theorem scanMarkupRun_doubled (hquote : quote = '"' ∨ quote = '\'') (rest : List Char) :
    scanMarkupRun (some quote) (quote :: quote :: rest) =
      (scanMarkupRun (some quote) rest).map (.consEscaped quote) := by
  rw [scanMarkupRun_delimiter hquote, List.head?_cons, if_pos rfl]
  rfl

/-- Text that goes on with an ampersand goes on with a reference. -/
theorem of_scanMarkupRun_reference {delimiter : Option Char} {cs tail : List Char}
    (h : scanMarkupRun delimiter ('&' :: cs) = .found run tail) :
    ∃ value cs', scanReference ('&' :: cs) = .found value cs' := by
  have hrun : endsLiteralRun delimiter '&' := by simp [endsLiteralRun]
  rw [scanMarkupRun.eq_def] at h
  dsimp only at h
  rw [if_pos hrun, if_neg (fun h => absurd h.1 (by decide)), if_neg (by decide), if_pos rfl] at h
  split at h
  · exact ⟨_, _, ‹_›⟩
  · cases h
  · cases h

/-- A reference in front of a quote does not depend on what comes behind the quote, which is no semicolon. -/
theorem scanReference_before {cs tail : List Char} (hquote : quote = '"' ∨ quote = '\'')
    (h : scanReference (cs ++ [quote]) = .found c tail) :
    ∃ body, tail = body ++ [quote] ∧ body.length < cs.length ∧
      ∀ rest, scanReference (cs ++ quote :: rest) = .found c (body ++ quote :: rest) := by
  obtain ⟨name, htext, hne, hchars, hvalue⟩ := of_scanReference h
  have htail : tail ≠ [] := by
    rintro rfl
    have hlast : quote = ';' := by
      simpa [List.getLast?_cons] using congrArg List.getLast? htext
    rcases hquote with rfl | rfl <;> cases hlast
  obtain ⟨body, last, rfl⟩ := (List.eq_nil_or_concat' tail).resolve_left htail
  have happend : cs ++ [quote] = '&' :: (name ++ ';' :: body) ++ [last] := by
    rw [htext, List.cons_append, List.append_assoc, List.cons_append]
  obtain ⟨rfl, hlast⟩ := List.append_inj' happend rfl
  obtain rfl : quote = last := by simpa using hlast
  refine ⟨body, rfl, by simp; omega, fun rest => ?_⟩
  rw [List.cons_append, List.append_assoc, List.cons_append]
  exact scanReference_body hne hchars hvalue (body ++ quote :: rest)

/-- Text that ends in front of a quote does not depend on what comes behind the quote. The induction is on
the length of the text, of which every step takes off a character, a doubled one or a reference. -/
theorem scanMarkupRun_before {body : List Char} {run : MarkupRun} (hquote : quote = '"' ∨ quote = '\'')
    (hrest : ∀ c ∈ rest.head?, c ≠ quote)
    (h : scanMarkupRun (some quote) (body ++ [quote]) = .found run [quote]) :
    scanMarkupRun (some quote) (body ++ quote :: rest) = .found run (quote :: rest) := by
  induction hn : body.length using Nat.strong_induction_on generalizing body run with
  | _ n ih =>
    subst hn
    cases body with
    | nil =>
      have hend : scanMarkupRun (some quote) [quote] = .found .empty [quote] :=
        endsText_delimiter hquote nofun
      rw [List.nil_append, hend] at h
      cases h
      exact endsText_delimiter hquote hrest
    | cons c cs =>
      rw [List.cons_append] at h ⊢
      by_cases hrun : endsLiteralRun (some quote) c
      · by_cases hbrace : (c = '{' ∨ c = '}') ∧ (cs ++ [quote]).head? = some c
        · have hother : quote ≠ c := by
            rintro rfl
            rcases hquote with rfl | rfl <;> simp at hbrace
          obtain ⟨d, cs, rfl⟩ : ∃ d cs', cs = d :: cs' := by
            cases cs with
            | nil => exact absurd (Option.some.inj hbrace.2) hother
            | cons d cs => exact ⟨d, cs, rfl⟩
          obtain rfl : d = c := Option.some.inj hbrace.2
          rw [List.cons_append, scanMarkupRun_brace hbrace.1] at h ⊢
          obtain ⟨run', hscan, rfl⟩ := of_map_found h
          rw [ih _ (by simp only [List.length_cons]; omega) hscan rfl]
          rfl
        by_cases hreference : c = '&'
        · subst hreference
          obtain ⟨value, cs', hreference⟩ := of_scanMarkupRun_reference h
          obtain ⟨more, rfl, hlength, hreference'⟩ :=
            scanReference_before hquote (show scanReference ('&' :: cs ++ [quote]) = _ from hreference)
          rw [scanMarkupRun_reference hreference] at h
          obtain ⟨run', hscan, rfl⟩ := of_map_found h
          have hgoes : scanReference ('&' :: (cs ++ quote :: rest)) = .found value (more ++ quote :: rest) :=
            hreference' rest
          rw [scanMarkupRun_reference hgoes, ih _ hlength hscan rfl]
          rfl
        by_cases hdouble : c = quote ∧ (cs ++ [quote]).head? = some c
        · obtain ⟨rfl, hhead⟩ := hdouble
          cases cs with
          | nil =>
            rw [List.nil_append, scanMarkupRun_doubled hquote, scanMarkupRun.eq_def] at h
            cases h
          | cons d cs =>
            obtain rfl : d = c := Option.some.inj hhead
            rw [List.cons_append, scanMarkupRun_doubled hquote] at h ⊢
            obtain ⟨run', hscan, rfl⟩ := of_map_found h
            rw [ih _ (by simp only [List.length_cons]; omega) hscan rfl]
            rfl
        · obtain ⟨-, htail⟩ := scanMarkupRun_open hrun hbrace hreference hdouble h
          simp at htail
      · rw [Bool.not_eq_true] at hrun
        rw [scanMarkupRun_literal hrun] at h ⊢
        obtain ⟨run', hscan, rfl⟩ := of_map_found h
        rw [ih _ (by simp) hscan rfl]
        rfl

/-! ### Terminators -/

/-- A text is cut at the first terminator, if none begins within what stands in front of it. -/
theorem splitAt?_append {terminator : List Char} (hne : terminator ≠ [])
    (hno : ∀ before after, body = before ++ after → after ≠ [] →
      terminator.isPrefixOf (after ++ (terminator ++ rest)) = false) :
    Scanned.splitAt? terminator (body ++ (terminator ++ rest)) = some (body, rest) := by
  induction body with
  | nil =>
    obtain ⟨d, terminator, rfl⟩ := List.exists_cons_of_ne_nil hne
    have hprefix : (d :: terminator).isPrefixOf (d :: (terminator ++ rest)) := by
      rw [List.isPrefixOf_iff_prefix, ← List.cons_append]
      exact List.prefix_append _ _
    change Scanned.splitAt? (d :: terminator) (d :: (terminator ++ rest)) = _
    rw [Scanned.splitAt?, if_pos hprefix, ← List.cons_append, List.drop_left]
  | cons c body ih =>
    have hfirst := hno [] (c :: body) rfl (List.cons_ne_nil _ _)
    have hrest := ih fun before after hbody => by
      refine hno (c :: before) after ?_
      rw [hbody, List.cons_append]
    rw [List.cons_append] at hfirst ⊢
    rw [Scanned.splitAt?, hfirst, if_neg Bool.false_ne_true, hrest]
    rfl

/-- No end of the text is a beginning of it as well. -/
def isUnbordered (terminator : List Char) : Bool :=
  (List.range terminator.length).all fun k =>
    k = 0 || !(terminator.drop k).isPrefixOf terminator

/-- A terminator that does not overlap itself is found behind every text that does not contain it. -/
theorem splitAt?_unbordered {terminator : List Char} (hne : terminator ≠ [])
    (hborder : isUnbordered terminator) (h : ¬terminator <:+: body) (rest : List Char) :
    Scanned.splitAt? terminator (body ++ (terminator ++ rest)) = some (body, rest) := by
  apply splitAt?_append hne
  rintro before after rfl hafter
  rw [← Bool.not_eq_true, List.isPrefixOf_iff_prefix]
  intro hprefix
  have hfront : after <+: after ++ (terminator ++ rest) := List.prefix_append _ _
  by_cases hle : terminator.length ≤ after.length
  · -- The terminator lies within the text.
    have hinside : terminator <+: after := List.prefix_of_prefix_length_le hprefix hfront hle
    exact h (hinside.isInfix.trans (List.suffix_append before after).isInfix)
  · -- An end of the terminator begins it.
    have hstart : after <+: terminator :=
      List.prefix_of_prefix_length_le hfront hprefix (by omega)
    obtain ⟨last, rfl⟩ := hstart
    rw [List.prefix_append_right_inj] at hprefix
    have hlast : last <+: after ++ last :=
      List.prefix_of_prefix_length_le hprefix (List.prefix_append _ _) (by simp)
    have hmem : after.length ∈ List.range (after ++ last).length := by
      rw [List.mem_range]
      omega
    have hno := List.all_eq_true.1 hborder _ hmem
    rw [List.drop_left, List.isPrefixOf_iff_prefix.2 hlast] at hno
    have hpos := List.length_pos_iff.2 hafter
    simp only [decide_eq_true_eq, Bool.not_true, Bool.or_false] at hno
    omega

theorem scanLiteralSection_append (h : ¬"]]>".toList <:+: body) (rest : List Char) :
    scanLiteralSection (body ++ ("]]>".toList ++ rest)) = .found (String.ofList body) rest := by
  rw [scanLiteralSection, splitAt?_unbordered (by decide) (by decide) h]

theorem hasDoubleHyphen_eq_false (h : ¬"--".toList <:+: body) : hasDoubleHyphen body = false := by
  induction body with
  | nil => rfl
  | cons c body ih =>
    have hrest : ¬"--".toList <:+: body := fun hi => h (hi.trans (List.suffix_cons c body).isInfix)
    have hfirst : ∀ body', c :: body ≠ '-' :: '-' :: body' := by
      intro body' heq
      rw [heq] at h
      exact h ⟨[], body', rfl⟩
    rw [hasDoubleHyphen]
    · exact ih hrest
    · intro body' hc hbody
      exact hfirst body' (by rw [hc, hbody])

theorem scanMarkupComment_append (h : ¬"--".toList <:+: body) (hlast : body.getLast? ≠ some '-')
    (rest : List Char) :
    scanMarkupComment (body ++ ("-->".toList ++ rest)) = .found (String.ofList body) rest := by
  have hhyphens : "--".toList <:+: "-->".toList := by decide
  have hcloser : ¬"-->".toList <:+: body := fun hi => h (hhyphens.trans hi)
  have hgood : (hasDoubleHyphen body || body.getLast? == some '-') = false := by
    rw [hasDoubleHyphen_eq_false h, Bool.false_or, beq_eq_false_iff_ne]
    exact hlast
  rw [scanMarkupComment, splitAt?_unbordered (by decide) (by decide) hcloser]
  dsimp only
  rw [hgood, if_neg Bool.false_ne_true]

theorem scanDelimited_append {blanks : List Char} (hblanks : ∀ c ∈ blanks, isBlank c)
    (hsome : body ≠ [] → blanks ≠ []) (h : ¬"?>".toList <:+: body)
    (hfirst : ∀ c ∈ body.head?, isBlank c = false) (rest : List Char) :
    scanDelimited "?>" "processing instruction" (blanks ++ (body ++ ("?>".toList ++ rest))) =
      .found (String.ofList body) rest := by
  cases blanks with
  | nil =>
    have hnil : body = [] := Classical.byContradiction fun hne => hsome hne rfl
    subst hnil
    rfl
  | cons c blanks =>
    have hc : isBlank c := hblanks c List.mem_cons_self
    have hother : c ≠ '?' := by
      rintro rfl
      exact absurd hc (by decide)
    have hcloser : "?>".toList.isPrefixOf (c :: (blanks ++ (body ++ ("?>".toList ++ rest)))) =
        false := by
      simp [List.isPrefixOf, hother.symm]
    have hbody : ∀ d ∈ (body ++ ("?>".toList ++ rest)).head?, isBlank d = false := by
      cases body with
      | nil =>
        rintro _ ⟨⟩
        decide
      | cons d body => exact hfirst
    have hdrop := (takeWhile_append hblanks hbody).2
    rw [List.cons_append] at hdrop
    rw [List.cons_append, scanDelimited, hcloser, if_neg Bool.false_ne_true, List.head?_cons,
      Option.any_some, if_pos hc, hdrop, splitAt?_unbordered (by decide) (by decide) h]

end XQuerySyntax
