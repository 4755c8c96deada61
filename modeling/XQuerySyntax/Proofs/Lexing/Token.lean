import XQuerySyntax.Proofs.Comparison.Word
import XQuerySyntax.Proofs.Entry.Word
import XQuerySyntax.Proofs.RoundTrip.Match

/-! Tokens of a text. What a pattern stands for is said of the text alone, without the matcher: the texts
that its parts allow, what is captured of them, and the text that remains. The matcher finds a token of a
rule exactly where there is one. -/

namespace XQuerySyntax

open PatternItem

/-! ### What patterns stand for -/

/-- The text begins with a lexeme of the kind, of which this is captured. -/
inductive Held : Placeholder → List Char → Capture → List Char → Prop where
  | name {text rest : List Char} {name : String} (h : scanName text = .found name rest) :
      Held .name text (.name name) rest
  | qualifiedName {text rest : List Char} {name : LexicalName} (h : scanQualifiedName text = .found name rest) :
      Held .qualifiedName text (.qualifiedName name) rest
  | string {text rest : List Char} {value : String} (h : scanStringLiteral text = .found value rest) :
      Held .string text (.string value) rest
  | number {text rest : List Char} {numeral : Numeral} {value : Literal} (h : scanNumeral text = .found numeral rest)
      (hvalue : numeral.value = .ok value) : Held .number text (.number value) rest

/-- The text begins with what the parts of a pattern stand for, of which `found` is captured, and the match
goes back to `rest`, which is the last anchor if there is one. Words of a pattern are whole words of the
text, and two of them have space between them. -/
inductive Matched : List PatternItem → Bool → Option (List Char) → List Char → Captures → List Char → Prop where
  | nil (afterWord : Bool) (anchor : Option (List Char)) (text : List Char) :
      Matched [] afterWord anchor text [] (anchor.getD text)
  | anchor {parts : List PatternItem} {afterWord : Bool} {anchor : Option (List Char)} {text rest : List Char}
      {found : Captures} (h : Matched parts afterWord (some text) text found rest) :
      Matched (.anchor :: parts) afterWord anchor text found rest
  | gap {parts : List PatternItem} {afterWord : Bool} {anchor : Option (List Char)} {space text rest : List Char}
      {found : Captures} (hspace : Trivia space) (hsettled : startsTrivia true text = false)
      (hapart : afterWord && startsWord parts → space ≠ []) (h : Matched parts afterWord anchor text found rest) :
      Matched (.gap :: parts) afterWord anchor (space ++ text) found rest
  | capture {parts : List PatternItem} {kind : Placeholder} {afterWord : Bool} {anchor : Option (List Char)}
      {text behind rest : List Char} {capture : Capture} {found : Captures} (hheld : Held kind text capture behind)
      (h : Matched parts (kind != .string) anchor behind found rest) :
      Matched (.capture kind :: parts) afterWord anchor text (capture :: found) rest
  | percent {parts : List PatternItem} {afterWord : Bool} {anchor : Option (List Char)} {text rest : List Char}
      {found : Captures} (h : Matched parts false anchor text found rest) :
      Matched (.percent :: parts) afterWord anchor ('%' :: text) found rest
  | char {parts : List PatternItem} {afterWord : Bool} {anchor : Option (List Char)} {text rest : List Char}
      {found : Captures} (c : Char)
      (hends : (isWordChar c || (c == '-' && afterWord)) && !continuesWord parts → endsName text)
      (h : Matched parts (isWordChar c || (c == '-' && afterWord)) anchor text found rest) :
      Matched (.char c :: parts) afterWord anchor (c :: text) found rest

/-- Behind space the text goes on with a token of the rule, which begins where `token` remains. The captures
are `found`, and `rest` is behind the token. -/
structure HasToken (r : Rule) (text token : List Char) (found : Captures) (rest : List Char) : Prop where
  space : ∃ space, Trivia space ∧ text = space ++ token
  settled : startsTrivia true token = false
  matched : Matched r.items false none token found rest

/-- The text goes on with no token of the rule. -/
def Lacks (r : Rule) (text : List Char) : Prop := ∀ token found rest, ¬HasToken r text token found rest

/-- The kind of lexeme that a capture is of. -/
def Capture.kind : Capture → Placeholder
  | .name _ => .name
  | .qualifiedName _ => .qualifiedName
  | .string _ => .string
  | .number _ => .number

/-- What the parts of a pattern capture, in order. -/
def capturedKinds (parts : List PatternItem) : List Placeholder :=
  parts.filterMap fun
    | .capture kind => some kind
    | _ => none

variable {r : Rule} {kind : Placeholder} {capture : Capture} {parts : List PatternItem} {afterWord : Bool}
  {anchor : Option (List Char)} {text token rest : List Char} {found : Captures} {m m₁ : Matcher}

theorem Held.kind_eq (h : Held kind text capture rest) : capture.kind = kind := by
  cases h <;> rfl

/-- A pattern captures a lexeme for each of its placeholders. -/
theorem Matched.kinds_eq (h : Matched parts afterWord anchor text found rest) :
    found.map Capture.kind = capturedKinds parts := by
  induction h with
  | nil => rfl
  | capture hheld _ ih =>
    rw [List.map_cons, hheld.kind_eq, ih]
    rfl
  | anchor _ ih => exact ih
  | gap _ _ _ _ ih => exact ih
  | percent _ ih => exact ih
  | char _ _ _ ih => exact ih

/-! ### What the matcher finds -/

namespace Scan

theorem placeholder_held (h : Held kind m.cursor.rest capture rest) :
    placeholder kind m = .ok true { m.moveTo rest with captures := m.captures ++ [capture] } := by
  cases h with
  | name h => exact (bind_ok (lexeme_found h)).trans rfl
  | qualifiedName h => exact (bind_ok (lexeme_found h)).trans rfl
  | string h => exact (bind_ok (lexeme_found h)).trans rfl
  | @number _ _ _ value h hvalue =>
    have hnumber : number m = .ok (some value) (m.moveTo rest) := by
      unfold number
      rw [lexeme_found h]
      dsimp only
      rw [hvalue]
    exact (bind_ok hnumber).trans rfl

/-- A lexeme that is kept has been found. -/
theorem found_of_keep {α : Type} {scanner : List Char → Scanned α} {wrap : α → Capture}
    (h : (lexeme scanner >>= fun found => keep (found.map wrap)) m = .ok true m₁) :
    ∃ value rest, scanner m.cursor.rest = .found value rest ∧
      m₁ = { m.moveTo rest with captures := m.captures ++ [wrap value] } := by
  obtain ⟨found, m₂, hlexeme, hkeep⟩ := of_bind_ok h
  unfold lexeme at hlexeme
  split at hlexeme <;> cases hlexeme
  · cases hkeep
    exact ⟨_, _, ‹_›, rfl⟩
  · cases hkeep

theorem held_of_placeholder (h : placeholder kind m = .ok true m₁) :
    ∃ capture rest, Held kind m.cursor.rest capture rest ∧
      m₁ = { m.moveTo rest with captures := m.captures ++ [capture] } := by
  cases kind with
  | name =>
    obtain ⟨name, rest, hscan, rfl⟩ := found_of_keep h
    exact ⟨_, rest, .name hscan, rfl⟩
  | qualifiedName =>
    obtain ⟨name, rest, hscan, rfl⟩ := found_of_keep h
    exact ⟨_, rest, .qualifiedName hscan, rfl⟩
  | string =>
    obtain ⟨value, rest, hscan, rfl⟩ := found_of_keep h
    exact ⟨_, rest, .string hscan, rfl⟩
  | number =>
    obtain ⟨found, m₂, hnumber, hkeep⟩ := of_bind_ok h
    unfold number lexeme at hnumber
    cases hscan : scanNumeral m.cursor.rest with
    | found numeral rest =>
      rw [hscan] at hnumber
      dsimp only at hnumber
      split at hnumber <;> cases hnumber
      cases hkeep
      exact ⟨_, rest, .number hscan ‹_›, rfl⟩
    | absent =>
      rw [hscan] at hnumber
      cases hnumber
      cases hkeep
    | faulty fault place =>
      rw [hscan] at hnumber
      cases hnumber

/-- What the matcher accepts is what the pattern stands for. -/
theorem matched_of_items (hm : m.state.skipsComments = true)
    (h : items parts afterWord anchor m = .ok (some rest) m₁) :
    ∃ found, Matched parts afterWord anchor m.cursor.rest found rest ∧ m₁.captures = m.captures ++ found := by
  induction parts generalizing afterWord anchor m with
  | nil =>
    obtain ⟨_, _, ⟨⟩, ⟨⟩⟩ := of_bind_ok h
    exact ⟨[], .nil _ _ _, (List.append_nil _).symm⟩
  | cons part parts ih =>
    cases part with
    | never => cases h
    | anchor =>
      obtain ⟨found, hfound, hcaptures⟩ := ih hm h
      exact ⟨found, .anchor hfound, hcaptures⟩
    | gap =>
      obtain ⟨_, _, ⟨⟩, h⟩ := of_bind_ok h
      obtain ⟨_, m₂, hskip, h⟩ := of_bind_ok h
      obtain ⟨text, hscan, rfl⟩ := scanTrivia_of_skipTrivia hm hskip
      obtain ⟨space, hspace, htext, hne⟩ := trivia_of_scanTrivia hscan
      split at h <;> rename_i hwords
      · cases h
      obtain ⟨found, hfound, hcaptures⟩ := ih (m := m.moveTo text) hm h
      refine ⟨found, ?_, hcaptures⟩
      rw [htext]
      refine .gap hspace (settled_of_scanTrivia hscan) (fun hapart => hne ?_) hfound
      simpa [hapart, hm] using hwords
    | capture kind =>
      obtain ⟨matched, m₂, hplaceholder, h⟩ := of_bind_ok h
      cases matched with
      | false => cases h
      | true =>
        obtain ⟨capture, behind, hheld, rfl⟩ := held_of_placeholder hplaceholder
        obtain ⟨found, hfound, hcaptures⟩ :=
          ih (m := { m.moveTo behind with captures := m.captures ++ [capture] }) hm h
        exact ⟨capture :: found, .capture hheld hfound, by rw [hcaptures, List.append_assoc]; rfl⟩
    | percent =>
      obtain ⟨matched, m₂, hchar, h⟩ := of_bind_ok h
      cases matched with
      | false => cases h
      | true =>
        obtain ⟨text, htext, rfl⟩ := char_ok hchar
        obtain ⟨found, hfound, hcaptures⟩ := ih (m := m.moveTo text) hm h
        exact ⟨found, htext ▸ .percent hfound, hcaptures⟩
    | char c =>
      obtain ⟨matched, m₂, hchar, h⟩ := of_bind_ok h
      cases matched with
      | false => cases h
      | true =>
        obtain ⟨text, htext, rfl⟩ := char_ok hchar
        rw [if_pos rfl] at h
        split at h <;> rename_i hlast
        · rw [bind_ok (wordEnds_eq _)] at h
          split at h <;> rename_i hends
          · rw [← (Bool.and_eq_true_iff.1 hlast).1] at h
            obtain ⟨found, hfound, hcaptures⟩ := ih (m := m.moveTo text) hm h
            exact ⟨found, htext ▸ .char c (fun _ => endsName_of_wordEnds hends) hfound, hcaptures⟩
          · cases h
        · obtain ⟨found, hfound, hcaptures⟩ := ih (m := m.moveTo text) hm h
          exact ⟨found, htext ▸ .char c (fun hword => (hlast hword).elim) hfound, hcaptures⟩

/-- What the pattern stands for is accepted. -/
theorem accepts_of_matched (h : Matched parts afterWord anchor text found rest) :
    Accepts true parts afterWord anchor text rest found := by
  induction h with
  | nil afterWord anchor text =>
    cases anchor with
    | none => exact accepts_nil text
    | some place => exact accepts_nil_anchor text place
  | anchor _ ih => exact accepts_anchor ih
  | gap hspace hsettled hapart _ ih =>
    exact accepts_gap (scanTrivia_append hspace hsettled) (fun hw => hspace.startsTrivia (hapart hw) _) ih
  | capture hheld _ ih =>
    refine accepts_capture (fun m hm => ?_) ih
    subst hm
    exact placeholder_held hheld
  | @percent _ _ _ text _ _ _ ih =>
    intro m hm htext
    obtain ⟨place, hplace⟩ := ih (m.moveTo text) hm rfl
    refine ⟨place, ?_⟩
    rw [items, bind_ok (char_cons htext), if_pos rfl, hplace]
    rfl
  | char c hends _ ih => exact accepts_char hends ih

end Scan

/-! ### Tokens -/

namespace Scan

/-- Outside markup a pattern that matches has found a token. -/
theorem token_of_pattern (hblanks : m.state.skipsBlanks = true) (hcomments : m.state.skipsComments = true)
    (h : pattern r.items m = .ok true m₁) :
    HasToken r m.cursor.rest m₁.token m₁.captures m₁.cursor.rest := by
  unfold pattern at h
  dsimp only at h
  rw [if_pos hblanks] at h
  split at h
  · cases h
  · rename_i m₂ hskip
    obtain ⟨token, hscan, rfl⟩ := scanTrivia_of_skipTrivia (m := { m with captures := [] }) hcomments hskip
    obtain ⟨space, hspace, htext, -⟩ := trivia_of_scanTrivia hscan
    split at h <;> cases h
    rename_i hitems
    obtain ⟨found, hfound, hcaptures⟩ :=
      matched_of_items (m := Matcher.moveTo { m with captures := [] } token) hcomments hitems
    obtain rfl : _ = found := hcaptures
    exact ⟨⟨space, hspace, htext⟩, settled_of_scanTrivia hscan, hfound⟩

/-- Where there is a token the pattern finds it. -/
theorem pattern_of_token (hblanks : m.state.skipsBlanks = true) (hcomments : m.state.skipsComments = true)
    (h : HasToken r m.cursor.rest token found rest) :
    pattern r.items m = .ok true { m.moveTo rest with token, captures := found } := by
  obtain ⟨space, hspace, htext⟩ := h.space
  let m₀ : Matcher := { m with captures := [] }
  have hskip : skipTrivia m₀ = .ok () (m₀.moveTo token) := by
    refine skipTrivia_found ?_
    change scanTrivia m.state.skipsComments m.cursor.rest = _
    rw [hcomments, htext]
    exact scanTrivia_append hspace h.settled
  obtain ⟨place, hplace⟩ := accepts_of_matched h.matched (m₀.moveTo token) hcomments rfl
  unfold pattern
  dsimp only
  rw [hblanks, if_pos rfl, hskip]
  dsimp only
  rw [hplace]
  rfl

end Scan

/-- There is one token of a rule at most. -/
theorem HasToken.unique {token' rest' : List Char} {found' : Captures} (h : HasToken r text token found rest)
    (h' : HasToken r text token' found' rest') : token' = token ∧ found' = found ∧ rest' = rest := by
  let m : Matcher := ((default : Matcher).moveTo text).goto .operator
  have hm := Scan.pattern_of_token (m := m) rfl rfl h
  rw [Scan.pattern_of_token (m := m) rfl rfl h'] at hm
  injection hm with _ hm
  exact ⟨congrArg Matcher.token hm, congrArg Matcher.captures hm, congrArg (·.cursor.rest) hm⟩

namespace Scan

/-- Where a rule is allowed and does not match there is no token of it. -/
theorem lacks_of_eat (hblanks : m.state.skipsBlanks = true) (hcomments : m.state.skipsComments = true)
    (hadmits : m.admits r = true) (h : eat r m = .ok false m₁) : Lacks r m.cursor.rest := by
  intro token found rest htoken
  rw [eat, if_pos hadmits, pattern_of_token hblanks hcomments htoken] at h
  cases h

end Scan

end XQuerySyntax
