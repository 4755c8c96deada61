import Mathlib.Data.Nat.Digits.Defs
import XQuerySyntax.Lexing.Matcher
import XQuerySyntax.Proofs.RoundTrip.MarkupScan

/-! Character references and string literals. What stands between the ampersand and the semicolon is one of five names, or the
digits of a code point; which code points may be written is for the language of documents to say. A string literal
is read back however its quotes and references are written. -/

namespace XQuerySyntax

variable {c : Char} {body text rest : List Char} {n : Nat}

/-! ### Numbers written in digits -/

/-- The number that digits stand for in a base: the last digit counts ones, and zeros in front count nothing. -/
def placeValue (base : Nat) (value : Char → Nat) (digits : List Char) : Nat :=
  Nat.ofDigits base (digits.map value).reverse

theorem foldl_eq_placeValue (base : Nat) (value : Char → Nat) (digits : List Char) :
    digits.foldl (fun n c => base * n + value c) 0 = placeValue base value digits := by
  rw [placeValue, Nat.ofDigits_eq_foldr, List.foldr_reverse, List.foldl_map]
  congr 1
  funext n c
  exact Nat.add_comm _ _

theorem ofDigits_eq_placeValue (digits : List Char) :
    Decimal.ofDigits digits = placeValue 10 Decimal.digitValue digits :=
  foldl_eq_placeValue 10 Decimal.digitValue digits

theorem ofHexDigits_eq_placeValue (digits : List Char) :
    ofHexDigits digits = placeValue 16 hexDigitValue digits :=
  foldl_eq_placeValue 16 hexDigitValue digits

/-! ### Code points -/

/-- The code points of the characters of XML 1.0. -/
def IsXmlChar (n : Nat) : Prop :=
  n = 0x9 ∨ n = 0xA ∨ n = 0xD ∨ (0x20 ≤ n ∧ n ≤ 0xD7FF) ∨ (0xE000 ≤ n ∧ n ≤ 0xFFFD) ∨
    (0x10000 ≤ n ∧ n ≤ 0x10FFFF)

theorem isXmlCodePoint_iff : isXmlCodePoint n = true ↔ IsXmlChar n := by
  simp only [isXmlCodePoint, IsXmlChar, Bool.or_eq_true, beq_iff_eq, Bool.and_eq_true, decide_eq_true_eq,
    or_assoc]

/-- No surrogate is among them, so each is a character. -/
theorem IsXmlChar.toNat_ofNat (h : IsXmlChar n) : (Char.ofNat n).toNat = n := by
  have hvalid : n.isValidChar := by
    unfold IsXmlChar at h
    unfold Nat.isValidChar
    omega
  rw [Char.ofNat, dif_pos hvalid]
  rfl

theorem charOfCodePoint_xml (h : IsXmlChar n) : charOfCodePoint n = .ok (Char.ofNat n) := by
  rw [charOfCodePoint, if_pos (isXmlCodePoint_iff.2 h)]

theorem charOfCodePoint_illegal (h : ¬IsXmlChar n) : charOfCodePoint n = .error .illegalCharacter := by
  rw [charOfCodePoint, if_neg fun hn => h (isXmlCodePoint_iff.1 hn)]

/-! ### What is written between the ampersand and the semicolon -/

/-- A code point in decimal digits behind a number sign, or in hexadecimal digits behind a number sign and
an `x`. -/
inductive WritesCodePoint : List Char → Nat → Prop where
  | decimal {digits : List Char} (hne : digits ≠ []) (hdigits : ∀ d ∈ digits, d.isDigit) :
      WritesCodePoint ('#' :: digits) (placeValue 10 Decimal.digitValue digits)
  | hexadecimal {digits : List Char} (hne : digits ≠ []) (hdigits : ∀ d ∈ digits, isHexDigit d) :
      WritesCodePoint ('#' :: 'x' :: digits) (placeValue 16 hexDigitValue digits)

/-- One of the five names of a character, or the code point of a character of XML. -/
inductive RefersTo : List Char → Char → Prop where
  | named {name : String} {c : Char} (h : (name, c) ∈ namedReferences) : RefersTo name.toList c
  | numeric {body : List Char} {c : Char} (h : WritesCodePoint body c.toNat) (hc : IsXmlChar c.toNat) :
      RefersTo body c

namespace WritesCodePoint

theorem referencedChar (h : WritesCodePoint body n) : referencedChar body = charOfCodePoint n := by
  cases h with
  | decimal hne hdigits => rw [referencedChar_decimal hne hdigits, ofDigits_eq_placeValue]
  | hexadecimal hne hdigits => rw [referencedChar_hexadecimal hne hdigits, ofHexDigits_eq_placeValue]

theorem ne_nil (h : WritesCodePoint body n) : body ≠ [] := by
  cases h <;> exact List.cons_ne_nil _ _

theorem isReferenceChar (h : WritesCodePoint body n) : ∀ d ∈ body, isReferenceChar d := by
  intro d hd
  cases h with
  | decimal _ hdigits =>
    rcases List.mem_cons.1 hd with rfl | hd
    · rfl
    · exact isReferenceChar_of_isHexDigit (isHexDigit_of_isDigit (hdigits d hd))
  | hexadecimal _ hdigits =>
    rcases List.mem_cons.1 hd with rfl | hd
    · rfl
    rcases List.mem_cons.1 hd with rfl | hd
    · rfl
    · exact isReferenceChar_of_isHexDigit (hdigits d hd)

end WritesCodePoint

/-- The text in front of a semicolon is what the names and the digits allow. -/
theorem isReferenceChar_named {name : String} (h : (name, c) ∈ namedReferences) :
    name.toList ≠ [] ∧ ∀ d ∈ name.toList, isReferenceChar d := by
  have hall : ∀ p ∈ namedReferences, p.1.toList ≠ [] ∧ p.1.toList.all isReferenceChar := by decide
  exact (hall _ h).imp_right List.all_eq_true.mp

theorem RefersTo.ne_nil (h : RefersTo body c) : body ≠ [] := by
  cases h with
  | named h => exact (isReferenceChar_named h).1
  | numeric h => exact h.ne_nil

theorem RefersTo.isReferenceChar (h : RefersTo body c) : ∀ d ∈ body, isReferenceChar d := by
  cases h with
  | named h => exact (isReferenceChar_named h).2
  | numeric h => exact h.isReferenceChar

theorem RefersTo.referencedChar (h : RefersTo body c) : referencedChar body = .ok c := by
  cases h with
  | named h =>
    have hall : ∀ p ∈ namedReferences, XQuerySyntax.referencedChar p.1.toList = .ok p.2 := by decide
    exact hall _ h
  | numeric h hc => rw [h.referencedChar, charOfCodePoint_xml hc, Char.ofNat_toNat]

/-- Apart from the five names only digits have a meaning: they are taken for a code point, and anything else
is refused, though not for the character that it stands for. -/
theorem writes_or_refused (h : ∀ p ∈ namedReferences, body ≠ p.1.toList) :
    (∃ n, WritesCodePoint body n) ∨
      ∃ fault, fault ≠ .illegalCharacter ∧ referencedChar body = .error fault := by
  have hlt := h ("lt", '<') (by decide)
  have hgt := h ("gt", '>') (by decide)
  have hamp := h ("amp", '&') (by decide)
  have hquot := h ("quot", '"') (by decide)
  have hapos := h ("apos", '\'') (by decide)
  unfold referencedChar
  rw [if_neg hlt, if_neg hgt, if_neg hamp, if_neg hquot, if_neg hapos]
  split
  · rename_i digits
    split
    · rename_i hdigits
      obtain ⟨hne, hall⟩ := Bool.and_eq_true_iff.1 hdigits
      exact .inl ⟨_, .hexadecimal (by simpa using hne) (List.all_eq_true.1 hall)⟩
    · exact .inr ⟨.malformedReference, by decide, rfl⟩
  · rename_i digits _
    split
    · rename_i hdigits
      obtain ⟨hne, hall⟩ := Bool.and_eq_true_iff.1 hdigits
      exact .inl ⟨_, .decimal (by simpa using hne) (List.all_eq_true.1 hall)⟩
    · exact .inr ⟨.malformedReference, by decide, rfl⟩
  · exact .inr ⟨.unknownEntity, by decide, rfl⟩

/-- What is written means one of the characters that it may refer to, or it is refused; for the character
it is refused just if it has the digits of one that is not allowed. -/
theorem referencedChar_cases (body : List Char) :
    (∃ c, referencedChar body = .ok c ∧ RefersTo body c) ∨
      (referencedChar body = .error .illegalCharacter ∧ ∃ n, WritesCodePoint body n ∧ ¬IsXmlChar n) ∨
      ∃ fault, fault ≠ .illegalCharacter ∧ referencedChar body = .error fault := by
  by_cases hname : ∃ p ∈ namedReferences, body = p.1.toList
  · obtain ⟨p, hmem, rfl⟩ := hname
    have hrefers : RefersTo p.1.toList p.2 := .named hmem
    exact .inl ⟨p.2, hrefers.referencedChar, hrefers⟩
  · rcases writes_or_refused fun p hmem hp => hname ⟨p, hmem, hp⟩ with ⟨n, hn⟩ | hrefused
    · by_cases hxml : IsXmlChar n
      · have hchar : (Char.ofNat n).toNat = n := hxml.toNat_ofNat
        have hrefers : RefersTo body (Char.ofNat n) := .numeric (by rwa [hchar]) (by rwa [hchar])
        exact .inl ⟨_, hrefers.referencedChar, hrefers⟩
      · exact .inr (.inl ⟨by rw [hn.referencedChar, charOfCodePoint_illegal hxml], n, hn, hxml⟩)
    · exact .inr (.inr hrefused)

/-! ### References in a text -/

/-- Up to a semicolon the text is referred to its meaning. -/
theorem scanReference_semicolon (hne : body ≠ []) (hbody : ∀ d ∈ body, isReferenceChar d)
    (rest : List Char) :
    scanReference ('&' :: (body ++ ';' :: rest)) =
      match referencedChar body with
      | .ok value => .found value rest
      | .error fault => .faulty fault ('&' :: (body ++ ';' :: rest)) := by
  have hsemicolon : ∀ d ∈ (';' :: rest).head?, isReferenceChar d = false := by
    rintro _ ⟨⟩
    rfl
  obtain ⟨htake, hdrop⟩ := takeWhile_append hbody hsemicolon
  obtain ⟨d, body, rfl⟩ := List.exists_cons_of_ne_nil hne
  rw [scanReference, htake, hdrop]
  rfl

/-- Either a semicolon ends the run of characters that a reference may have, or the reference is malformed. -/
theorem scanReference_cases (text : List Char) :
    (∃ body rest, text = body ++ ';' :: rest ∧ body ≠ [] ∧ ∀ d ∈ body, isReferenceChar d) ∨
      scanReference ('&' :: text) = .faulty .malformedReference ('&' :: text) := by
  rw [scanReference]
  split
  · rename_i d body rest htake hdrop
    refine .inl ⟨d :: body, rest, ?_, List.cons_ne_nil _ _, ?_⟩
    · rw [← htake, ← hdrop, List.takeWhile_append_dropWhile]
    · rw [← htake]
      exact List.all_eq_true.1 (List.all_takeWhile ..)
  · exact .inr rfl

/-- In front of this text the scanner stops where it stands, with an error of this code. -/
def StopsHere {α : Type} (scanner : List Char → Scanned α) (code : String) (text : List Char) : Prop :=
  ∀ m : Matcher, m.cursor.rest = text →
    ∃ d, Scan.lexeme scanner m = .error d m ∧ d.isError ∧ d.code.text = code ∧ d.offset = m.cursor.pos

theorem stopsHere_of_faulty {α : Type} {scanner : List Char → Scanned α} {fault : LexicalFault}
    (h : scanner text = .faulty fault text) :
    StopsHere scanner (if fault = .illegalCharacter then "XQST0090" else "XPST0003") text := by
  rintro m rfl
  refine ⟨fault.diagnostic m.cursor.pos, ?_, rfl, ?_, rfl⟩
  · unfold Scan.lexeme
    rw [h]
    rfl
  · by_cases hfault : fault = .illegalCharacter
    · rw [if_pos hfault, hfault]
      rfl
    · rw [if_neg hfault, LexicalFault.diagnostic, if_neg hfault]
      rfl

theorem scanReference_found_iff {c : Char} :
    scanReference ('&' :: text) = .found c rest ↔ ∃ body, RefersTo body c ∧ text = body ++ ';' :: rest := by
  constructor
  · intro h
    rcases scanReference_cases text with ⟨body, rest', rfl, hne, hbody⟩ | hmalformed
    · rw [scanReference_semicolon hne hbody] at h
      rcases referencedChar_cases body with ⟨d, hd, hrefers⟩ | ⟨hillegal, -⟩ | ⟨fault, -, hfault⟩
      · rw [hd] at h
        cases h
        exact ⟨body, hrefers, rfl⟩
      · rw [hillegal] at h
        cases h
      · rw [hfault] at h
        cases h
    · rw [hmalformed] at h
      cases h
  · rintro ⟨body, hrefers, rfl⟩
    rw [scanReference_semicolon hrefers.ne_nil hrefers.isReferenceChar, hrefers.referencedChar]

theorem scanReference_illegal (h : WritesCodePoint body n) (hn : ¬IsXmlChar n) (rest : List Char) :
    scanReference ('&' :: (body ++ ';' :: rest)) =
      .faulty .illegalCharacter ('&' :: (body ++ ';' :: rest)) := by
  rw [scanReference_semicolon h.ne_nil h.isReferenceChar, h.referencedChar, charOfCodePoint_illegal hn]

theorem scanReference_refused
    (h : ∀ body rest, text = body ++ ';' :: rest → (∀ c, ¬RefersTo body c) ∧ ∀ n, ¬WritesCodePoint body n) :
    ∃ fault, fault ≠ .illegalCharacter ∧ scanReference ('&' :: text) = .faulty fault ('&' :: text) := by
  rcases scanReference_cases text with ⟨body, rest, rfl, hne, hbody⟩ | hmalformed
  · obtain ⟨hno, hdigits⟩ := h body rest rfl
    rw [scanReference_semicolon hne hbody]
    rcases referencedChar_cases body with ⟨c, -, hrefers⟩ | ⟨-, n, hwrites, -⟩ | ⟨fault, hne, hfault⟩
    · exact absurd hrefers (hno c)
    · exact absurd hwrites (hdigits n)
    · exact ⟨fault, hne, by rw [hfault]⟩
  · exact ⟨.malformedReference, by decide, hmalformed⟩

/-- A reference is read just if it is one of the five named ones or writes, in digits of any number, the
code point of a character of XML 1.0; what follows its semicolon is left. Digits of any other code point,
however large, are refused as that, and everything else as malformed, in both cases at the ampersand. -/
theorem references_mean_characters_of_documents (text : List Char) :
    (∀ c rest, scanReference ('&' :: text) = .found c rest ↔
      ∃ body, RefersTo body c ∧ text = body ++ ';' :: rest) ∧
    ((∃ body n rest, WritesCodePoint body n ∧ ¬IsXmlChar n ∧ text = body ++ ';' :: rest) →
      StopsHere scanReference "XQST0090" ('&' :: text)) ∧
    ((∀ body rest, text = body ++ ';' :: rest →
        (∀ c, ¬RefersTo body c) ∧ ∀ n, ¬WritesCodePoint body n) →
      StopsHere scanReference "XPST0003" ('&' :: text)) := by
  refine ⟨fun c rest => scanReference_found_iff, ?_, ?_⟩
  · rintro ⟨body, n, rest, hwrites, hn, rfl⟩
    exact stopsHere_of_faulty (scanReference_illegal hwrites hn rest)
  · intro h
    obtain ⟨fault, hne, hfault⟩ := scanReference_refused h
    have hstops := stopsHere_of_faulty hfault
    rwa [if_neg hne] at hstops

/-- Neither the digits nor the zeros in front of them are limited, and a code point too large for a machine
word is refused like any other. -/
example : scanReference "&#x0000000000000041;b".toList = .found 'A' ['b'] ∧
    scanReference "&#99999999999999999999;".toList =
      .faulty .illegalCharacter "&#99999999999999999999;".toList := ⟨by rfl, by rfl⟩

end XQuerySyntax

/-! ### String literals

A quote inside a literal is written twice, any character that documents may contain as a
reference, and every character but the quote and the ampersand as itself; however these are mixed, reading
gives back what was written. -/

namespace XQuerySyntax

variable {quote : Char} {value body : List Char}

/-- The ways to write a text between quotes. -/
inductive Encodes (quote : Char) : List Char → List Char → Prop where
  | nil : Encodes quote [] []
  | plain {value body : List Char} (c : Char) (hquote : c ≠ quote) (hand : c ≠ '&') :
      Encodes quote value body → Encodes quote (c :: value) (c :: body)
  | doubled {value body : List Char} :
      Encodes quote value body → Encodes quote (quote :: value) (quote :: quote :: body)
  | reference {value body name : List Char} {c : Char} (h : RefersTo name c) :
      Encodes quote value body → Encodes quote (c :: value) ('&' :: (name ++ ';' :: body))

theorem Scanned.map_id {α : Type} (s : Scanned α) : s.map id = s := by
  cases s <;> rfl

theorem Scanned.map_map {α β γ : Type} (f : α → β) (g : β → γ) (s : Scanned α) :
    (s.map f).map g = s.map (g ∘ f) := by
  cases s <;> rfl

/-- What is written in front is read first, whatever follows it. -/
theorem Encodes.scan (hquote : quote ≠ '&') (h : Encodes quote value body) (rest : List Char) :
    scanStringBody quote (body ++ rest) = (scanStringBody quote rest).map (value ++ ·) := by
  induction h with
  | nil => exact (Scanned.map_id _).symm
  | plain c hc hand _ ih =>
    rw [List.cons_append, scanStringBody_plain hc hand, ih, Scanned.map_map]
    rfl
  | doubled _ ih =>
    rw [List.cons_append, List.cons_append, scanStringBody_doubled hquote, ih, Scanned.map_map]
    rfl
  | @reference value body name c hname _ ih =>
    have hreference : scanReference ('&' :: (name ++ ';' :: (body ++ rest))) = .found c (body ++ rest) :=
      scanReference_found_iff.2 ⟨name, hname, rfl⟩
    rw [List.cons_append, List.append_assoc, List.cons_append, scanStringBody_reference hreference, ih,
      Scanned.map_map]
    rfl

/-- Every text can be written between quotes. -/
theorem exists_encodes (quote : Char) (value : List Char) : ∃ body, Encodes quote value body := by
  induction value with
  | nil => exact ⟨[], .nil⟩
  | cons c value ih =>
    obtain ⟨body, hbody⟩ := ih
    by_cases hquote : c = quote
    · subst hquote
      exact ⟨_, .doubled hbody⟩
    by_cases hand : c = '&'
    · subst hand
      have hname : ("amp", '&') ∈ namedReferences := by decide
      exact ⟨_, .reference (.named hname) hbody⟩
    · exact ⟨_, .plain c hquote hand hbody⟩

/-- However a text is written between quotes, it is read back, and what follows the closing quote is left.
Without a closing quote the literal is open, which is an error at its opening quote. -/
theorem quoted_text_is_read_back (hquote : quote = '"' ∨ quote = '\'') (h : Encodes quote value body) :
    (∀ rest : List Char, (∀ c ∈ rest.head?, c ≠ quote) →
      scanStringLiteral (quote :: (body ++ quote :: rest)) = .found (String.ofList value) rest) ∧
    scanStringLiteral (quote :: body) = .faulty (.unterminated "string literal") (quote :: body) ∧
    StopsHere scanStringLiteral "XPST0003" (quote :: body) := by
  have hand : quote ≠ '&' := by
    rcases hquote with rfl | rfl <;> decide
  have hopen : scanStringLiteral (quote :: body) = .faulty (.unterminated "string literal") (quote :: body) := by
    have hscan := h.scan hand []
    rw [List.append_nil] at hscan
    rw [scanStringLiteral, if_pos hquote, hscan, scanStringBody]
    rfl
  refine ⟨fun rest hr => ?_, hopen, stopsHere_of_faulty hopen⟩
  rw [scanStringLiteral, if_pos hquote, h.scan hand, scanStringBody_end hand hr]
  simp only [Scanned.map, List.append_nil]

/-- A quote written twice in front of the closing one, a named reference, and zeros in front of digits. -/
theorem doubled_quote_and_references_are_read_back :
    Encodes '"' "a<A\"".toList "a&lt;&#x0041;\"\"".toList ∧
      scanStringLiteral "\"a&lt;&#x0041;\"\"\" 'b'".toList = .found "a<A\"" " 'b'".toList ∧
      scanStringLiteral "\"a&lt;&#x0041;\"\"".toList =
        .faulty (.unterminated "string literal") "\"a&lt;&#x0041;\"\"".toList := by
  have hless : RefersTo "lt".toList '<' := .named (by decide)
  have hletter : RefersTo "#x0041".toList 'A' := by
    have hwrites : WritesCodePoint "#x0041".toList 'A'.toNat :=
      @WritesCodePoint.hexadecimal "0041".toList (by decide) (List.all_eq_true.mp (by decide))
    exact .numeric hwrites (by unfold IsXmlChar; decide)
  have hencodes : Encodes '"' "a<A\"".toList "a&lt;&#x0041;\"\"".toList :=
    .plain 'a' (by decide) (by decide) (.reference hless (.reference hletter (.doubled .nil)))
  obtain ⟨hclosed, hopen, -⟩ := quoted_text_is_read_back (.inl rfl) hencodes
  exact ⟨hencodes, hclosed " 'b'".toList (by rintro _ ⟨⟩; decide), hopen⟩

end XQuerySyntax
