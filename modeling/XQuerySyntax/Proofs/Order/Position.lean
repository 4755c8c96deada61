import XQuerySyntax.Proofs.Comparison.Altered

/-! How a match moves on in the text. What remains behind it is an end of what remained before. A rule that
begins with a visible character takes a token that begins at the next character that is no space, or
behind comments in front of it, and ends further on. -/

namespace XQuerySyntax

/-! ### Space -/

/-- The code points of space. -/
def spacePoints : List Nat :=
  List.range' 0x09 5 ++ [0x20, 0x85, 0xA0, 0x1680] ++ List.range' 0x2000 11 ++
    [0x2028, 0x2029, 0x202F, 0x205F, 0x3000]

theorem mem_spacePoints {c : Char} (h : Text.isSpace c) : c.toNat ∈ spacePoints := by
  simp only [Text.isSpace, Text.inRanges, List.any_cons, List.any_nil, Bool.or_false, Bool.or_eq_true,
    Bool.and_eq_true, decide_eq_true_eq] at h
  simp only [spacePoints, List.mem_append, List.mem_range'_1, List.mem_cons, List.not_mem_nil, or_false]
  omega

/-- What holds of none of the code points of space holds of no space. -/
theorem isSpace_eq_false {p : Char → Bool} (hp : spacePoints.all fun n => !p (Char.ofNat n)) {c : Char}
    (h : p c) : Text.isSpace c = false := by
  refine Bool.eq_false_iff.2 fun hc => ?_
  have hpoint := List.all_eq_true.1 hp _ (mem_spacePoints hc)
  rw [Char.ofNat_toNat, h] at hpoint
  cases hpoint

theorem isSpace_eq_false_of_isNameStart {c : Char} (h : isNameStart c) : Text.isSpace c = false :=
  isSpace_eq_false (by decide +kernel) h

theorem isSpace_eq_false_of_isDigit {c : Char} (h : c.isDigit) : Text.isSpace c = false :=
  isSpace_eq_false (by rfl) h

/-! ### Tokens -/

/-- What remains behind a token that begins with a character that is no space. -/
def Consumes (text rest : List Char) : Prop :=
  ∃ c cs, text = c :: cs ∧ Text.isSpace c = false ∧ rest <:+ cs

theorem Consumes.suffix {text rest rest' : List Char} (h : Consumes text rest) (hrest : rest' <:+ rest) :
    Consumes text rest' := by
  obtain ⟨c, cs, htext, hc, hcs⟩ := h
  exact ⟨c, cs, htext, hc, hrest.trans hcs⟩

theorem consumes_scanName {text rest : List Char} {name : String} (h : scanName text = .found name rest) :
    Consumes text rest := by
  cases text with
  | nil => cases h
  | cons c cs =>
    rw [scanName] at h
    split at h <;> rename_i hc <;> cases h
    exact ⟨c, cs, rfl, isSpace_eq_false_of_isNameStart hc, List.dropWhile_suffix _⟩

theorem consumes_scanQualifiedName {text rest : List Char} {name : LexicalName}
    (h : scanQualifiedName text = .found name rest) : Consumes text rest := by
  unfold scanQualifiedName at h
  split at h
  · rename_i first rest₁ hfirst
    have hconsumes := consumes_scanName hfirst
    split at h
    · rename_i second rest₂ hsecond
      cases h
      have hwithin := scanName_within rest₁
      rw [hsecond] at hwithin
      exact hconsumes.suffix (List.IsSuffix.trans hwithin (List.suffix_cons _ _))
    · cases h
      exact hconsumes
  · rename_i hfirst
    cases h
    exact consumes_scanName hfirst
  · cases h
  · cases h

theorem consumes_scanStringLiteral {text rest : List Char} {value : String}
    (h : scanStringLiteral text = .found value rest) : Consumes text rest := by
  cases text with
  | nil => cases h
  | cons c cs =>
    rw [scanStringLiteral] at h
    split at h
    · rename_i hc
      have hbody := scanStringBody_within c cs
      split at h <;> rename_i hs <;> rw [hs] at hbody <;> cases h
      refine ⟨c, cs, rfl, ?_, hbody⟩
      rcases hc with rfl | rfl <;> decide
    · cases h

theorem consumes_scanMantissa {text whole rest : List Char} {fraction : Option (List Char)}
    (h : scanMantissa text = some (whole, fraction, rest)) : Consumes text rest := by
  cases text with
  | nil => cases h
  | cons c cs =>
    have hdigits : cs.dropWhile Char.isDigit <:+ cs := List.dropWhile_suffix _
    by_cases hc : c.isDigit = true
    · refine ⟨c, cs, rfl, isSpace_eq_false_of_isDigit hc, ?_⟩
      rw [scanMantissa, scanDigits, List.takeWhile_cons_of_pos hc, List.dropWhile_cons_of_pos hc] at h
      split at h
      · rename_i heq
        cases heq
      · rename_i heq
        cases heq
      · rename_i rest₁ _ heq
        cases h
        rw [(Prod.mk.inj heq).2] at hdigits
        exact ((suffix_of_scanDigits rest₁).trans (List.suffix_cons _ _)).trans hdigits
      · rename_i heq
        cases h
        rwa [(Prod.mk.inj heq).2] at hdigits
    · rw [scanMantissa, scanDigits, List.takeWhile_cons_of_neg hc, List.dropWhile_cons_of_neg hc] at h
      split at h
      · rename_i heq
        cases heq
        have hrest := suffix_of_scanDigits cs
        split at h <;> rename_i hs <;> cases h
        rw [hs] at hrest
        exact ⟨'.', cs, rfl, by decide, hrest⟩
      · cases h
      · rename_i hwhole heq
        cases heq
        exact (hwhole rfl).elim
      · rename_i hwhole _ heq
        cases heq
        exact (hwhole rfl).elim

theorem consumes_scanNumeral {text rest : List Char} {numeral : Numeral}
    (h : scanNumeral text = .found numeral rest) : Consumes text rest := by
  unfold scanNumeral at h
  split at h
  · cases h
  · rename_i rest₁ hs
    dsimp only at h
    split at h <;> cases h
    exact (consumes_scanMantissa hs).suffix (suffix_of_scanExponent rest₁)

/-! ### Scanning steps -/

/-- Whether the part matches nothing that begins with space. -/
def PatternItem.isVisible : PatternItem → Bool
  | .char c => !Text.isSpace c
  | .percent | .capture _ | .never => true
  | .gap | .anchor => false

/-- Whether a match of the rule begins with a character that is no space. -/
def Rule.isVisible (r : Rule) : Bool := r.items.head?.any PatternItem.isVisible

theorem Rule.isVisible_eq : isVisible = fun r => r.itemsOfBytes.head?.any PatternItem.isVisible := by
  rw [← items_eq]
  rfl

namespace Scan

variable {α : Type} {m m₁ : Matcher} {parts : List PatternItem} {afterWord : Bool} {rest : List Char}

/-- What a step does depends on the text that remains only, so it may be run on that text alone: it ends
there as it does in every text. -/
theorem suffix_of_local {step : Scan α} (good : List Char → α → Prop) (hlocal : Local step)
    (hstays : ∀ text : String, Stays text step (good text.toList)) {a : α} (h : step m = .ok a m₁) :
    good m.cursor.rest a ∧ m₁.cursor.rest <:+ m.cursor.rest := by
  have htext : (String.ofList m.cursor.rest).toList = m.cursor.rest := String.toList_ofList
  let m' : Matcher := { m with
    cursor := .ofText (.ofList m.cursor.rest)
    token := (String.ofList m.cursor.rest).toList }
  obtain ⟨m₁', hr, hm₁⟩ := hlocal m m' a m₁ ⟨htext, rfl, rfl⟩ h
  have hwithin : m'.Within (.ofList m.cursor.rest) := ⟨rfl, List.suffix_rfl, List.suffix_rfl⟩
  obtain ⟨hgood, hm₁'⟩ := (hstays _).of_ok hwithin hr
  have hrest := hm₁'.rest
  rw [htext] at hgood hrest
  rw [hm₁.rest] at hrest
  exact ⟨hgood, hrest⟩

theorem suffix_of_skipFront {state : LexicalState} (h : skipFront state m = .ok () m₁) :
    m₁.cursor.rest <:+ m.cursor.rest :=
  (suffix_of_local (fun _ _ => True) (local_skipFront state)
    (fun _ => stays_ite stays_skipTrivia (stays_pure trivial)) h).2

theorem suffix_of_items (h : items parts afterWord none m = .ok (some rest) m₁) :
    rest <:+ m.cursor.rest :=
  (suffix_of_local (fun text found => ∀ rest ∈ found, rest <:+ text) (local_items _ _ _)
    (fun _ => stays_items none nofun) h).1 rest rfl

theorem consumes_lexeme {scanner : List Char → Scanned α}
    (hscanner : ∀ text a rest, scanner text = .found a rest → Consumes text rest) {a : α}
    (h : lexeme scanner m = .ok (some a) m₁) : Consumes m.cursor.rest m₁.cursor.rest := by
  unfold lexeme at h
  split at h <;> rename_i hs <;> cases h
  exact hscanner _ _ _ hs

theorem consumes_keep {step : Scan (Option α)} {capture : α → Capture}
    (hstep : ∀ a m₁, step m = .ok (some a) m₁ → Consumes m.cursor.rest m₁.cursor.rest)
    (h : (do keep ((← step).map capture)) m = .ok true m₁) : Consumes m.cursor.rest m₁.cursor.rest := by
  obtain ⟨found, m₂, hfound, hkeep⟩ := of_bind_ok h
  cases found with
  | none => cases hkeep
  | some a =>
    cases hkeep
    exact hstep a m₂ hfound

theorem consumes_number {value : Literal} (h : number m = .ok (some value) m₁) :
    Consumes m.cursor.rest m₁.cursor.rest := by
  unfold number at h
  split at h <;> rename_i hs
  · split at h <;> cases h
    exact consumes_lexeme (fun _ _ _ => consumes_scanNumeral) hs
  · cases h
  · cases h

theorem consumes_placeholder {kind : Placeholder} (h : placeholder kind m = .ok true m₁) :
    Consumes m.cursor.rest m₁.cursor.rest := by
  cases kind with
  | name => exact consumes_keep (fun _ _ => consumes_lexeme fun _ _ _ => consumes_scanName) h
  | qualifiedName =>
    exact consumes_keep (fun _ _ => consumes_lexeme fun _ _ _ => consumes_scanQualifiedName) h
  | string => exact consumes_keep (fun _ _ => consumes_lexeme fun _ _ _ => consumes_scanStringLiteral) h
  | number => exact consumes_keep (fun _ _ => consumes_number) h

theorem consumes_char {c : Char} (hc : Text.isSpace c = false) (h : char c m = .ok true m₁) :
    Consumes m.cursor.rest m₁.cursor.rest := by
  obtain ⟨text, htext, rfl⟩ := char_ok h
  exact ⟨c, text, htext, hc, List.suffix_rfl⟩

/-- A visible part is there, and what comes behind it only moves on. -/
theorem consumes_items (hvisible : (parts.head?.any PatternItem.isVisible) = true)
    (h : items parts afterWord none m = .ok (some rest) m₁) : Consumes m.cursor.rest rest := by
  cases parts with
  | nil => cases hvisible
  | cons part parts =>
    have hpart : part.isVisible = true := hvisible
    cases part with
    | char c =>
      obtain ⟨matched, m₂, hchar, h⟩ := of_bind_ok h
      cases matched with
      | false => cases h
      | true =>
        have hconsumes := consumes_char (by simpa [PatternItem.isVisible] using hpart) hchar
        rw [if_pos rfl] at h
        split at h
        · rw [bind_ok (wordEnds_eq _)] at h
          split at h
          · exact hconsumes.suffix (suffix_of_items h)
          · cases h
        · exact hconsumes.suffix (suffix_of_items h)
    | percent =>
      obtain ⟨matched, m₂, hchar, h⟩ := of_bind_ok h
      cases matched with
      | false => cases h
      | true => exact (consumes_char (by decide) hchar).suffix (suffix_of_items h)
    | capture kind =>
      obtain ⟨matched, m₂, hcapture, h⟩ := of_bind_ok h
      cases matched with
      | false => cases h
      | true => exact (consumes_placeholder hcapture).suffix (suffix_of_items h)
    | never => cases h
    | gap => cases hpart
    | anchor => cases hpart

/-- A rule that matches takes its token from the text that remains, and what remains then is an end of the
token. -/
theorem suffix_of_eat {r : Rule} (h : eat r m = .ok true m₁) :
    m₁.token <:+ m.cursor.rest ∧ m₁.cursor.rest <:+ m₁.token ∧
      (r.isVisible = true → Consumes m₁.token m₁.cursor.rest) := by
  obtain ⟨m₂, he, -, hp⟩ | ⟨m₂, he, -⟩ | ⟨d, m₂, he, -⟩ := eat_cases r m <;> rw [he] at h <;> cases h
  rw [pattern_eq] at hp
  split at hp
  · cases hp
  · rename_i m₃ hskip
    split at hp <;> rename_i hitems <;> cases hp
    have hfront : m₃.cursor.rest <:+ ({ m with captures := [] } : Matcher).cursor.rest :=
      suffix_of_skipFront hskip
    exact ⟨hfront, suffix_of_items hitems, fun hr => consumes_items hr hitems⟩

end Scan

/-! ### Places behind a bound -/

theorem suffix_dropWhile {α : Type} (p : α → Bool) {rest text : List α} (h : rest <:+ text) :
    rest.dropWhile p <:+ text.dropWhile p := by
  obtain ⟨front, rfl⟩ := h
  rw [List.dropWhile_append]
  split
  · exact List.suffix_rfl
  · exact (List.dropWhile_suffix p).trans (List.suffix_append _ _)

namespace Matcher

/-- The next character that is no space stands at the bound or behind it, in a text of `n` bytes. -/
structure Behind (n b : Nat) (m : Matcher) : Prop where
  size : m.cursor.size = n
  place : b + byteLength (m.cursor.rest.dropWhile Text.isSpace) ≤ n

/-- The last token begins at the bound or behind it, and the matcher stands behind its beginning. -/
structure Took (n b : Nat) (m : Matcher) : Prop where
  start : b ≤ m.tokenStart
  behind : m.Behind n (m.tokenStart + 1)

variable {n b b' : Nat} {m m' : Matcher}

theorem Behind.mono (h : m.Behind n b) (hb : b' ≤ b) : m.Behind n b' :=
  ⟨h.size, Nat.le_trans (Nat.add_le_add_right hb _) h.place⟩

theorem Behind.of_suffix (h : m.Behind n b) (hsize : m'.cursor.size = m.cursor.size)
    (hrest : m'.cursor.rest <:+ m.cursor.rest) : m'.Behind n b := by
  have hle := byteLength_le_of_suffix (suffix_dropWhile Text.isSpace hrest)
  exact ⟨hsize.trans h.size, Nat.le_trans (Nat.add_le_add_left hle b) h.place⟩

theorem Behind.nextOffset (h : m.Behind n b) :
    b ≤ m.nextOffset ∧ m.Behind n m.nextOffset := by
  obtain ⟨rfl, hplace⟩ := h
  refine ⟨?_, rfl, ?_⟩ <;> rw [Matcher.nextOffset, Cursor.offsetOf] <;> omega

theorem Took.mono (h : m.Took n b) (hb : b' ≤ b) : m.Took n b' := ⟨Nat.le_trans hb h.start, h.behind⟩

/-- The matcher is not in front of its token. -/
theorem Took.past (h : m.Took n b) : m.Behind n b := h.behind.mono (Nat.le_succ_of_le h.start)

/-- A token that begins with a character that is no space stands where the next such character stood, or
behind. -/
theorem Behind.took (h : m.Behind n b) {r : Rule} (hr : r.isVisible = true)
    (heat : Scan.eat r m = .ok true m') : m'.Took n b := by
  obtain ⟨htoken, -, hconsumes⟩ := Scan.suffix_of_eat heat
  obtain ⟨c, cs, hcs, hc, hrest⟩ := hconsumes hr
  obtain ⟨rfl, hplace⟩ := h
  have hsize := (Scan.settings_eat heat).size
  have hfront := byteLength_le_of_suffix (suffix_dropWhile Text.isSpace htoken)
  rw [hcs, List.dropWhile_cons_of_neg (by simp [hc]), byteLength_cons] at hfront
  have hbehind := byteLength_le_of_suffix ((List.dropWhile_suffix Text.isSpace).trans hrest)
  have hpos := c.utf8Size_pos
  have hstart : m'.tokenStart = m.cursor.size - (c.utf8Size + byteLength cs) := by
    rw [tokenStart, Cursor.offsetOf, hsize, hcs, byteLength_cons]
  refine ⟨?_, hsize, ?_⟩ <;> rw [hstart] <;> omega

end Matcher

end XQuerySyntax
