import XQuerySyntax.Proofs.Lexing.Token

/-! What a match captures. A match goes through its pattern part by part, also behind an anchor, and keeps
the lexeme at every placeholder. It keeps nothing else, and forgets what the match before it has kept. -/

namespace XQuerySyntax

open PatternItem

/-- The parts of a pattern take one piece of the text after the other, up to `behind`, and `found` are the
lexemes at the placeholders. What stands in a gap depends on whether comments are skipped. -/
inductive Walks (comments : Bool) : List PatternItem → List Char → Captures → List Char → Prop where
  | nil (text : List Char) : Walks comments [] text [] text
  | anchor {parts : List PatternItem} {text behind : List Char} {found : Captures}
      (h : Walks comments parts text found behind) : Walks comments (.anchor :: parts) text found behind
  | gap {parts : List PatternItem} {text apart behind : List Char} {found : Captures}
      (hspace : scanTrivia comments text = .found () apart) (h : Walks comments parts apart found behind) :
      Walks comments (.gap :: parts) text found behind
  | capture {parts : List PatternItem} {kind : Placeholder} {text rest behind : List Char} {capture : Capture}
      {found : Captures} (hheld : Held kind text capture rest) (h : Walks comments parts rest found behind) :
      Walks comments (.capture kind :: parts) text (capture :: found) behind
  | percent {parts : List PatternItem} {text behind : List Char} {found : Captures}
      (h : Walks comments parts text found behind) : Walks comments (.percent :: parts) ('%' :: text) found behind
  | char {parts : List PatternItem} {text behind : List Char} {found : Captures} (c : Char)
      (h : Walks comments parts text found behind) : Walks comments (.char c :: parts) (c :: text) found behind

/-- Where a match may begin: behind the blanks, in a lexical state that skips them. -/
def Matcher.Begins (m : Matcher) (token : List Char) : Prop :=
  if m.state.skipsBlanks then scanTrivia m.state.skipsComments m.cursor.rest = .found () token
  else token = m.cursor.rest

variable {r : Rule} {parts : List PatternItem} {afterWord comments : Bool} {anchor : Option (List Char)}
  {text rest behind : List Char} {found : Captures} {m m₁ : Matcher}

/-- There is one capture for each placeholder, of its kind and in the order of the pattern. -/
theorem Walks.kinds_eq (h : Walks comments parts text found behind) :
    found.map Capture.kind = capturedKinds parts := by
  induction h with
  | nil => rfl
  | capture hheld _ ih =>
    rw [List.map_cons, hheld.kind_eq, ih]
    rfl
  | anchor _ ih => exact ih
  | gap _ _ ih => exact ih
  | percent _ ih => exact ih
  | char _ _ ih => exact ih

namespace Scan

theorem found_of_skipTrivia (h : skipTrivia m = .ok () m₁) :
    ∃ text, scanTrivia m.state.skipsComments m.cursor.rest = .found () text ∧ m₁ = m.moveTo text := by
  change EStateM.map _ (lexeme (scanTrivia m.state.skipsComments)) m = _ at h
  unfold EStateM.map lexeme at h
  cases hscan : scanTrivia m.state.skipsComments m.cursor.rest with
  | found a text =>
    rw [hscan] at h
    cases h
    exact ⟨text, rfl, rfl⟩
  | absent => exact (scanTrivia_ne_absent _ _ hscan).elim
  | faulty fault place =>
    rw [hscan] at h
    cases h

/-- What is kept is added behind what has been kept before. -/
theorem walks_of_items (h : items parts afterWord anchor m = .ok (some rest) m₁) :
    ∃ found behind, Walks m.state.skipsComments parts m.cursor.rest found behind ∧
      m₁.captures = m.captures ++ found := by
  induction parts generalizing afterWord anchor m with
  | nil =>
    obtain ⟨_, _, ⟨⟩, ⟨⟩⟩ := of_bind_ok h
    exact ⟨[], _, .nil _, (List.append_nil _).symm⟩
  | cons part parts ih =>
    cases part with
    | never => cases h
    | anchor =>
      obtain ⟨found, behind, hwalks, hcaptures⟩ := ih h
      exact ⟨found, behind, .anchor hwalks, hcaptures⟩
    | gap =>
      obtain ⟨_, _, ⟨⟩, h⟩ := of_bind_ok h
      obtain ⟨_, m₂, hskip, h⟩ := of_bind_ok h
      obtain ⟨text, hscan, rfl⟩ := found_of_skipTrivia hskip
      split at h
      · cases h
      obtain ⟨found, behind, hwalks, hcaptures⟩ := ih (m := m.moveTo text) h
      exact ⟨found, behind, .gap hscan hwalks, hcaptures⟩
    | capture kind =>
      obtain ⟨matched, m₂, hplaceholder, h⟩ := of_bind_ok h
      cases matched with
      | false => cases h
      | true =>
        obtain ⟨capture, rest, hheld, rfl⟩ := held_of_placeholder hplaceholder
        obtain ⟨found, behind, hwalks, hcaptures⟩ :=
          ih (m := { m.moveTo rest with captures := m.captures ++ [capture] }) h
        exact ⟨capture :: found, behind, .capture hheld hwalks, by rw [hcaptures, List.append_assoc]; rfl⟩
    | percent =>
      obtain ⟨matched, m₂, hchar, h⟩ := of_bind_ok h
      cases matched with
      | false => cases h
      | true =>
        obtain ⟨text, htext, rfl⟩ := char_ok hchar
        obtain ⟨found, behind, hwalks, hcaptures⟩ := ih (m := m.moveTo text) h
        exact ⟨found, behind, htext ▸ .percent hwalks, hcaptures⟩
    | char c =>
      obtain ⟨matched, m₂, hchar, h⟩ := of_bind_ok h
      cases matched with
      | false => cases h
      | true =>
        obtain ⟨text, htext, rfl⟩ := char_ok hchar
        -- Whether the word ends here decides on the match, and keeps nothing.
        have hparts : ∃ afterWord, items parts afterWord anchor (m.moveTo text) = .ok (some rest) m₁ := by
          rw [if_pos rfl] at h
          split at h
          · rw [bind_ok (wordEnds_eq _)] at h
            split at h
            · exact ⟨_, h⟩
            · cases h
          · exact ⟨_, h⟩
        obtain ⟨_, hparts⟩ := hparts
        obtain ⟨found, behind, hwalks, hcaptures⟩ := ih (m := m.moveTo text) hparts
        exact ⟨found, behind, htext ▸ .char c hwalks, hcaptures⟩

/-- A match keeps what its own pattern captures, from where it begins. -/
theorem walks_of_pattern (h : pattern parts m = .ok true m₁) :
    m.Begins m₁.token ∧ ∃ behind, Walks m.state.skipsComments parts m₁.token m₁.captures behind := by
  unfold pattern at h
  dsimp only at h
  split at h
  · cases h
  · rename_i m₂ hskip
    have hbegins : m.Begins m₂.cursor.rest ∧
        m₂ = Matcher.moveTo { m with captures := [] } m₂.cursor.rest := by
      unfold Matcher.Begins
      split at hskip <;> rename_i hblanks
      · obtain ⟨token, hscan, rfl⟩ := found_of_skipTrivia (m := { m with captures := [] }) hskip
        rw [if_pos hblanks]
        exact ⟨hscan, rfl⟩
      · cases hskip
        rw [if_neg hblanks]
        exact ⟨rfl, rfl⟩
    obtain ⟨hbegins, hm₂⟩ := hbegins
    split at h <;> cases h
    rename_i hitems
    rw [hm₂] at hitems
    obtain ⟨found, behind, hwalks, hcaptures⟩ := walks_of_items hitems
    obtain rfl : _ = found := hcaptures
    exact ⟨hbegins, behind, hwalks⟩

theorem kinds_of_pattern (h : pattern parts m = .ok true m₁) :
    m₁.captures.map Capture.kind = capturedKinds parts := by
  obtain ⟨-, _, hwalks⟩ := walks_of_pattern h
  exact hwalks.kinds_eq

/-- Behind a match the captures are those of the rule. -/
theorem kinds_of_eat (h : eat r m = .ok true m₁) :
    m₁.captures.map Capture.kind = capturedKinds r.items := by
  unfold eat at h
  split at h
  · split at h
    · rename_i hpattern
      have hkinds := kinds_of_pattern hpattern
      cases h
      exact hkinds
    · exact kinds_of_pattern h
  · cases h

/-- A rule that has only been tested leaves its captures too. -/
theorem kinds_of_peek (h : peek r m = .ok true m₁) :
    m₁.captures.map Capture.kind = capturedKinds r.items := by
  unfold peek at h
  split at h
  · split at h <;> cases h
    rename_i hpattern
    have hkinds := kinds_of_pattern hpattern
    exact hkinds
  · cases h

end Scan

/-! ### Readings -/

/-- A reading that is there gives what has been captured, and no empty value. -/
structure Captures.Faithful (captures : Captures) (i : Nat) : Prop where
  name : captures.has .name i → captures[i]? = some (.name (captures.name i)) ∨
    captures[i]? = some (.qualifiedName (.ofLocal (captures.name i)))
  qualifiedName : captures.has .qualifiedName i →
    captures[i]? = some (.qualifiedName (captures.qualifiedName i)) ∨
    ∃ name, captures[i]? = some (.name name) ∧ captures.qualifiedName i = .ofLocal name
  string : captures.has .string i → captures[i]? = some (.string (captures.string i))
  number : captures.has .number i →
    ∃ value, captures.number? i = some value ∧ captures[i]? = some (.number value)

namespace Captures

variable {captures : Captures} {kind : Placeholder} {i : Nat}

theorem capture_of_has (h : captures.has kind i) : ∃ c, captures[i]? = some c ∧ c.readsAs kind :=
  (Option.any_eq_true _ _).1 h

theorem faithful (captures : Captures) (i : Nat) : captures.Faithful i where
  name h := by
    obtain ⟨c, hc, hreads⟩ := capture_of_has h
    unfold name
    rw [hc]
    cases c with
    | name n => exact .inl rfl
    | qualifiedName n =>
      obtain ⟨_ | q, n⟩ := n
      · exact .inr rfl
      · cases hreads
    | _ => cases hreads
  qualifiedName h := by
    obtain ⟨c, hc, hreads⟩ := capture_of_has h
    unfold qualifiedName
    rw [hc]
    cases c with
    | name n => exact .inr ⟨n, rfl, rfl⟩
    | qualifiedName n => exact .inl rfl
    | _ => cases hreads
  string h := by
    obtain ⟨c, hc, hreads⟩ := capture_of_has h
    unfold string
    rw [hc]
    cases c with
    | string value => rfl
    | _ => cases hreads
  number h := by
    obtain ⟨c, hc, hreads⟩ := capture_of_has h
    unfold number?
    rw [hc]
    cases c with
    | number value => exact ⟨value, rfl, rfl⟩
    | _ => cases hreads

/-- A capture can be read as one of its own kind. -/
theorem has_of_kinds (h : (captures.map Capture.kind)[i]? = some kind) : captures.has kind i = true := by
  rw [List.getElem?_map] at h
  obtain ⟨c, hc, rfl⟩ := Option.map_eq_some_iff.1 h
  unfold has
  rw [hc]
  cases c <;> rfl

end Captures

end XQuerySyntax
