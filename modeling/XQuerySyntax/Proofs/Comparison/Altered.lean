import XQuerySyntax.Proofs.Comparison.Same
import XQuerySyntax.Proofs.Comparison.Word

/-! Two runs on texts and settings that differ. The second text may have space in front of it, or the
second run may lack an extension. -/

namespace XQuerySyntax

/-- The settings without one extension; the plain language cannot be switched off. -/
def Extensions.without (e : Extensions) : Extension → Extensions
  | .core => e
  | .fullText => { e with fullText := false }
  | .update => { e with update := false }
  | .scripting => { e with scripting := false }

theorem Extensions.enables_without {e : Extensions} {x y : Extension} (h : ¬(x = y ∧ y ≠ .core)) :
    (e.without x).enables y = e.enables y := by
  cases x <;> cases y <;> first | rfl | exact (h ⟨rfl, nofun⟩).elim

theorem Extensions.not_enables_without {e : Extensions} {x : Extension} (hx : x ≠ .core) :
    (e.without x).enables x = false := by
  cases x <;> first | rfl | exact (hx rfl).elim

/-- Where the first character of a text stands that is not space. -/
def frontOffset (text : List Char) : Nat := byteLength text - byteLength (text.dropWhile Text.isSpace)

theorem byteLength_le_of_suffix {rest text : List Char} (h : rest <:+ text) :
    byteLength rest ≤ byteLength text := by
  obtain ⟨front, rfl⟩ := h
  rw [byteLength_append]
  exact Nat.le_add_left _ _

theorem frontOffset_append {lead : List Char} (hlead : ∀ c ∈ lead, Text.isSpace c) (text : List Char) :
    frontOffset (lead ++ text) = byteLength lead + frontOffset text := by
  have hle := byteLength_le_of_suffix (List.dropWhile_suffix Text.isSpace : text.dropWhile _ <:+ text)
  rw [frontOffset, frontOffset, List.dropWhile_append_of_pos hlead, byteLength_append]
  omega

/-- If the first character that is not space stands behind the lead, this has nothing but space. -/
theorem isSpace_of_le_frontOffset {lead text : List Char}
    (h : byteLength lead ≤ frontOffset (lead ++ text)) : ∀ c ∈ lead, Text.isSpace c := by
  induction lead with
  | nil => exact fun _ h => nomatch h
  | cons c lead ih =>
    rw [frontOffset, List.cons_append] at h
    by_cases hc : Text.isSpace c = true
    · rw [List.dropWhile_cons_of_pos hc, byteLength_cons, byteLength_cons] at h
      refine List.forall_mem_cons.2 ⟨hc, ih ?_⟩
      have hle := byteLength_le_of_suffix
        (List.dropWhile_suffix Text.isSpace : (lead ++ text).dropWhile _ <:+ lead ++ text)
      rw [frontOffset]
      omega
    · rw [List.dropWhile_cons_of_neg hc, byteLength_cons] at h
      have := c.utf8Size_pos
      omega

theorem isSpace_of_isBlank {c : Char} (h : isBlank c) : Text.isSpace c := by
  unfold isBlank at h
  simp only [Bool.or_eq_true, beq_iff_eq] at h
  obtain ((rfl | rfl) | rfl) | rfl := h <;> decide

/-- Space in front of a text is skipped with the space at its beginning. -/
theorem scanTrivia_lead {lead : List Char} (h : Trivia lead) (text : List Char) :
    scanTrivia true (lead ++ text) = scanTrivia true text := by
  induction h with
  | nil => rfl
  | blank c hc _ ih => rw [List.cons_append, scanTrivia_blank hc, ih]
  | @comment body space hbody _ ih =>
    have hdrop : ('(' :: ':' :: (body ++ space) ++ text).dropWhile isBlank =
        '(' :: ':' :: (body ++ (space ++ text)) := by
      rw [List.cons_append, List.cons_append, List.append_assoc]
      exact List.dropWhile_cons_of_neg (by decide)
    have hcomment : startsComment ('(' :: ':' :: (body ++ (space ++ text))) = true := rfl
    have hinner : ('(' :: ':' :: (body ++ (space ++ text))).drop 2 = body ++ (space ++ text) := rfl
    rw [scanTrivia_eq, hdrop, hcomment, hinner, skipCommentBody_append hbody]
    exact ih

/-- A test that fails leaves the matcher in place. -/
theorem Scan.samePlace_of_peek {r : Rule} {m m₁ : Matcher} (h : peek r m = .ok false m₁) : m.SamePlace m₁ := by
  have hp := pattern_settles r.items m
  unfold peek at h
  split at h
  · cases hs : pattern r.items m with
    | error d m₂ =>
      rw [hs] at h
      cases h
    | ok matched m₂ =>
      rw [hs] at h hp
      cases h
      rw [show m₂ = _ from hp]
      exact ⟨rfl, rfl, rfl⟩
  · cases h
    exact ⟨rfl, rfl, rfl⟩

namespace Comparison

open Scan

/-- The same text remains at both places, or the places are the beginnings of the two texts. -/
def Lined (text lead rest rest' : List Char) : Prop := rest' = rest ∨ rest = text ∧ rest' = lead ++ text

/-- Matchers at corresponding places of a text and of the same text behind a lead. The second matcher
lacks an extension. -/
structure Altered (text : String) (lead : List Char) (x : Extension) (t : Stage) (m m' : Matcher) :
    Prop where
  within : m.Within text
  size : m'.cursor.size = byteLength lead + m.cursor.size
  stack : m'.stack = m.stack
  extensions : m'.extensions = m.extensions.without x
  token : Lined text.toList lead m.token m'.token
  token_eq : t ≠ .anywhere → m'.token = m.token
  rest : Lined text.toList lead m.cursor.rest m'.cursor.rest
  /-- In markup, space in front of a token is no trivia. -/
  rest_eq : t = .behind ∨ m.state.isMarkup = true → m'.cursor.rest = m.cursor.rest

namespace Altered

variable {text : String} {lead : List Char} {x : Extension} {t : Stage} {m m' m₁ m₁' : Matcher}

theorem state (h : Altered text lead x t m m') : m'.state = m.state :=
  congrArg StateStack.active h.stack

/-- The two runs come to the same text behind the space in front of them. -/
theorem meet (hlead : Trivia lead) (h : Altered text lead x t m m') : Meet m m' := by
  rcases h.rest with hrest | ⟨hrest, hrest'⟩
  · exact meet_of_rest hrest h.stack
  by_cases hmarkup : m.state.isMarkup = true
  · exact meet_of_rest (h.rest_eq (.inr hmarkup)) h.stack
  rw [Bool.not_eq_true] at hmarkup
  have hcomments : m.state.skipsComments = true := by rw [LexicalState.skipsComments, hmarkup]; rfl
  have hfront : skipFront m.state = skipTrivia := by
    cases hs : m.state <;> rw [hs] at hmarkup <;> first | rfl | cases hmarkup
  refine ⟨h.stack, fun m₁ hskip => ?_⟩
  rw [hfront] at hskip ⊢
  have hscan : scanTrivia true m'.cursor.rest = scanTrivia true m.cursor.rest := by
    rw [hrest, hrest', scanTrivia_lead hlead]
  cases hs : scanTrivia true m.cursor.rest with
  | absent => exact (scanTrivia_ne_absent _ _ hs).elim
  | faulty fault place =>
    change EStateM.map _ (lexeme (scanTrivia m.state.skipsComments)) _ = _ at hskip
    unfold EStateM.map lexeme at hskip
    rw [hcomments, hs] at hskip
    cases hskip
  | found _ rest =>
    rw [hs] at hscan
    rw [← hcomments] at hs
    rw [← hcomments, ← h.state] at hscan
    rw [skipTrivia_found (m := { m with captures := [] }) hs] at hskip
    cases hskip
    exact ⟨_, skipTrivia_found (m := { m' with captures := [] }) hscan, rfl, h.stack, rfl⟩

theorem admits_eq (h : Altered text lead x t m m') {r : Rule}
    (hx : ¬(x = r.extension ∧ r.extension ≠ .core)) : m'.admits r = m.admits r := by
  rw [Matcher.admits, Matcher.admits, h.state, h.extensions, Extensions.enables_without hx]

/-- The first matcher has not moved, and has at most lost what it had captured. -/
theorem of_samePlace (h : Altered text lead x t m m') (hm : m.SamePlace m₁) (hm' : m'.SamePlace m₁')
    (he : m₁.extensions = m.extensions) (he' : m₁'.extensions = m'.extensions) :
    Altered text lead x t m₁ m₁' where
  within := ⟨hm.cursor ▸ h.within.size, hm.cursor ▸ h.within.rest, hm.token ▸ h.within.token⟩
  size := by rw [hm'.cursor, hm.cursor, h.size]
  stack := by rw [hm'.stack, hm.stack, h.stack]
  extensions := by rw [he', he, h.extensions]
  token := by rw [hm'.token, hm.token]; exact h.token
  token_eq ht := by rw [hm'.token, hm.token, h.token_eq ht]
  rest := by rw [hm'.cursor, hm.cursor]; exact h.rest
  rest_eq ht := by
    rw [Matcher.state, hm.stack] at ht
    rw [hm'.cursor, hm.cursor, h.rest_eq ht]

theorem offset_eq (h : Altered text lead x t m m') {rest : List Char} (hrest : rest <:+ text.toList) :
    m'.cursor.offsetOf rest = byteLength lead + m.cursor.offsetOf rest := by
  have hle := byteLength_le_of_suffix hrest
  rw [Cursor.offsetOf, Cursor.offsetOf, h.size, h.within.size]
  omega

/-- Behind a match the two runs stand in front of the same text. -/
theorem eat (hlead : Trivia lead) (h : Altered text lead x t m m') {r : Rule}
    (hx : ¬(x = r.extension ∧ r.extension ≠ .core)) {matched : Bool} (hr : Scan.eat r m = .ok matched m₁) :
    ∃ m₁', Scan.eat r m' = .ok matched m₁' ∧ if matched then
      Altered text lead x .behind m₁ m₁' ∧ m₁'.captures = m₁.captures else Altered text lead x t m₁ m₁' := by
  obtain ⟨m₁', hr', halike⟩ := eat_of_meet (h.meet hlead) (h.admits_eq hx) hr
  have hs := settings_eat hr
  have hs' := settings_eat hr'
  refine ⟨m₁', hr', ?_⟩
  cases matched with
  | true =>
    obtain ⟨halike, htoken⟩ := halike rfl
    refine ⟨⟨((stays_eat r).of_ok h.within hr).2, ?_, halike.stack, ?_, .inl htoken, fun _ => htoken,
      .inl halike.rest, fun _ => halike.rest⟩, halike.captures⟩
    · rw [hs'.size, hs.size, h.size]
    · rw [hs'.extensions, hs.extensions, h.extensions]
  | false =>
    exact h.of_samePlace (samePlace_of_eat hr) (samePlace_of_eat hr') hs.extensions hs'.extensions

theorem peek (hlead : Trivia lead) (h : Altered text lead x t m m') {r : Rule} (hx : r.extension = .core)
    {matched : Bool} (hr : Scan.peek r m = .ok matched m₁) :
    ∃ m₁', Scan.peek r m' = .ok matched m₁' ∧ if matched then
      Altered text lead x t.seen m₁ m₁' ∧ m₁'.captures = m₁.captures else Altered text lead x t m₁ m₁' := by
  obtain ⟨m₁', hr', hsame⟩ := peek_of_meet (h.meet hlead) (h.admits_eq fun hd => hd.2 hx) hr
  have hs := settings_peek hr
  have hs' := settings_peek hr'
  refine ⟨m₁', hr', ?_⟩
  cases matched with
  | true =>
    obtain ⟨hcaptures, htoken⟩ := hsame rfl
    obtain ⟨-, token, captures, hm₁⟩ := peek_cases r m
    obtain ⟨-, token', captures', hm₁'⟩ := peek_cases r m'
    have hwithin := ((stays_peek r).of_ok h.within hr).2
    rw [hr] at hm₁
    rw [hr'] at hm₁'
    obtain rfl : m₁ = { m with token, captures } := hm₁
    obtain rfl : m₁' = { m' with token := token', captures := captures' } := hm₁'
    refine ⟨⟨hwithin, h.size, h.stack, h.extensions, .inl htoken, fun _ => htoken, h.rest, fun ht => ?_⟩,
      hcaptures⟩
    refine h.rest_eq (ht.imp_left fun ht => ?_)
    cases t <;> first | rfl | cases ht
  | false =>
    exact h.of_samePlace (samePlace_of_peek hr) (samePlace_of_peek hr') hs.extensions hs'.extensions

theorem lexeme {α : Type} (h : Altered text lead x .behind m m') {scanner : List Char → Scanned α}
    (hscanner : ∀ text, (scanner text).Within text) {found : Option α}
    (hr : Scan.lexeme scanner m = .ok found m₁) :
    ∃ m₁', Scan.lexeme scanner m' = .ok found m₁' ∧ Altered text lead x .behind m₁ m₁' := by
  have hrest := h.rest_eq (.inl rfl)
  have hwithin := ((stays_lexeme_place hscanner).of_ok h.within hr).2
  unfold Scan.lexeme at hr ⊢
  rw [hrest]
  cases hs : scanner m.cursor.rest with
  | found a rest =>
    rw [hs] at hr
    cases hr
    exact ⟨_, rfl, hwithin, h.size, h.stack, h.extensions, h.token, h.token_eq, .inl rfl, fun _ => rfl⟩
  | absent =>
    rw [hs] at hr
    cases hr
    exact ⟨m', rfl, h⟩
  | faulty fault place =>
    rw [hs] at hr
    cases hr

theorem atEnd (hlead : Trivia lead) (h : Altered text lead x t m m') {ended : Bool}
    (hr : Scan.atEnd m = .ok ended m₁) :
    ∃ m₁', Scan.atEnd m' = .ok ended m₁' ∧ Altered text lead x t m₁ m₁' := by
  have hscan : scanTrivia true m'.cursor.rest = scanTrivia true m.cursor.rest := by
    rcases h.rest with hrest | ⟨hrest, hrest'⟩
    · rw [hrest]
    · rw [hrest, hrest', scanTrivia_lead hlead]
  unfold Scan.atEnd Scan.lexeme at hr ⊢
  rw [hscan]
  cases hs : scanTrivia true m.cursor.rest with
  | absent => exact (scanTrivia_ne_absent _ _ hs).elim
  | faulty fault place =>
    rw [hs] at hr
    cases hr
  | found a rest =>
    rw [hs] at hr
    cases hr
    exact ⟨m', rfl, h⟩

/-- A place that has been passed by both runs is before the same text. -/
theorem restore (h : Altered text lead x .behind m m') :
    m'.mark = m.mark ∧ ∀ n n', Altered text lead x .behind n n' →
      Altered text lead x .behind (n.restore m.mark) (n'.restore m.mark) := by
  have hrest := h.rest_eq (.inl rfl)
  refine ⟨?_, fun n n' hn => ?_⟩
  · rw [Matcher.mark, Matcher.mark, hrest, h.stack]
  · exact ⟨⟨hn.within.size, h.within.rest, hn.within.token⟩, hn.size, rfl, hn.extensions, hn.token,
      hn.token_eq, .inl rfl, fun _ => rfl⟩

end Altered

/-! ### Where offsets belong -/

/-- An offset behind a lead in front of the text. The look-ahead for the next character does not take
comments for space, so at the beginning it may still find a place inside the lead. -/
def settled (text lead : List Char) (offset : Nat) : Nat :=
  if offset = frontOffset (lead ++ text) then byteLength lead + frontOffset text else offset

theorem settled_add (text lead : List Char) (n : Nat) :
    settled text lead (byteLength lead + n) = byteLength lead + n := by
  unfold settled
  split
  · rename_i h
    have hspace := isSpace_of_le_frontOffset (h ▸ Nat.le_add_right (byteLength lead) n)
    rw [h, frontOffset_append hspace]
  · rfl

/-- The look-ahead passes a lead without comments. -/
theorem settled_of_blank {lead : List Char} (hlead : ∀ c ∈ lead, isBlank c) (text : List Char) :
    settled text lead = id := by
  funext n
  unfold settled
  rw [← frontOffset_append fun c hc => isSpace_of_isBlank (hlead c hc)]
  split
  · exact Eq.symm ‹_›
  · rfl

theorem settled_nil (text : List Char) : settled text [] = id := settled_of_blank (List.forall_mem_nil _) text

theorem Altered.nextOffset {text : String} {lead : List Char} {x : Extension} {t : Stage}
    {m m' : Matcher} (h : Altered text lead x t m m') :
    byteLength lead + m.nextOffset = settled text.toList lead m'.nextOffset := by
  rcases h.rest with hrest | ⟨hrest, hrest'⟩
  · have hoffset := h.offset_eq ((List.dropWhile_suffix Text.isSpace).trans h.within.rest)
    rw [Matcher.nextOffset, Matcher.nextOffset, hrest, hoffset, settled_add]
  · have hoffset : m'.nextOffset = frontOffset (lead ++ text.toList) := by
      rw [Matcher.nextOffset, Cursor.offsetOf, frontOffset, h.size, h.within.size, hrest', byteLength_append]
    rw [hoffset, settled, if_pos rfl, Matcher.nextOffset, Cursor.offsetOf, h.within.size, hrest, frontOffset]

/-- Runs on a text and on the same text behind a lead, or with an extension and without it. -/
def altered (text : String) (lead : List Char) (x : Extension) (limit : Nat) (hlead : Trivia lead)
    (hx : x ≠ .core → lead = [] ∧ Unheard x text) : Comparison where
  left n := byteLength lead + n
  right := settled text.toList lead
  dropped := x
  on := x ≠ .core
  strict := False
  still := lead = []
  limit := limit
  Scans := Altered text lead x
  Declaring := Matcher.Free text.toList
  left_eq_right hon := by
    rw [(hx hon).1, settled_nil]
    exact funext Nat.zero_add
  not_strict _ := id
  core_of_strict := False.elim
  still_of_strict _ := False.elim
  id_of_still := by
    rintro rfl
    exact ⟨funext Nat.zero_add, settled_nil _⟩
  id_of_strict := False.elim
  abreast_of_strict := False.elim
  scans_of_seen := by
    intro t m m' h
    have hseen : t.seen ≠ .anywhere := by cases t <;> exact nofun
    exact { h with
      token_eq := fun _ => h.token_eq hseen
      rest_eq := fun ht => h.rest_eq (ht.imp_left fun ht => congrArg Stage.seen ht) }
  scans_of_behind h := { h with
    token_eq := fun _ => h.token_eq nofun
    rest_eq := fun _ => h.rest_eq (.inl rfl) }
  behind_of_still := by
    rintro t m m' rfl h
    have hlined {text rest rest' : List Char} (h : Lined text [] rest rest') : rest' = rest := by
      rcases h with h | ⟨rfl, rfl⟩
      · exact h
      · rfl
    exact { h with token_eq := fun _ => hlined h.token, rest_eq := fun _ => hlined h.rest }
  follows_eat := by
    intro t m m' r hd h
    cases hr : Scan.eat r m with
    | error d m₁ => exact False.elim
    | ok matched m₁ => exact h.eat hlead hd hr
  eat_dropped := by
    rintro t m m' r ⟨rfl, hcore⟩ h
    have heat : Scan.eat r m' = .ok false m' := by
      refine eat_of_lacks ?_
      rw [h.extensions, Extensions.not_enables_without hcore]
    refine ⟨m', heat, fun matched m₁ hr => ?_⟩
    cases matched with
    | true => exact hcore
    | false =>
      exact h.of_samePlace (samePlace_of_eat hr) ⟨rfl, rfl, rfl⟩ (settings_eat hr).extensions rfl
  follows_peek := by
    intro t m m' r hcore h
    cases hr : Scan.peek r m with
    | error d m₁ => exact False.elim
    | ok matched m₁ => exact h.peek hlead hcore hr
  follows_lexeme := by
    intro α m m' scanner hscanner h
    cases hr : Scan.lexeme scanner m with
    | error d m₁ => exact False.elim
    | ok found m₁ => exact h.lexeme hscanner hr
  follows_atEnd := by
    intro t m m' h
    cases hr : Scan.atEnd m with
    | error d m₁ => exact False.elim
    | ok ended m₁ => exact h.atEnd hlead hr
  scans_goto := by
    intro t m m' state hstate h
    have hcode : ¬(m.goto state).state.isMarkup = true := by
      rw [show (m.goto state).state = state from rfl, hstate]
      exact nofun
    exact { h with
      within := ⟨h.within.size, h.within.rest, h.within.token⟩
      stack := congrArg (StateStack.goto · state) h.stack
      rest_eq := fun ht => h.rest_eq (.inl (ht.resolve_right hcode)) }
  scans_mark h := h.restore
  like_tokenStart h := by
    have htoken := h.token_eq nofun
    rw [Matcher.tokenStart, Matcher.tokenStart, htoken, h.offset_eq h.within.token, settled_add]
  like_nextOffset h := h.nextOffset
  atEnd_eq h := by rw [Cursor.atEnd, h.rest_eq (.inl rfl)]; rfl
  size_le h := by
    rw [h.size]
    exact Nat.le_add_left _ _
  declaring_eat hr h heat := free_of_eat hr h.within heat
  declaring_of_samePlace := by
    rintro m m₁ hm ⟨before, htext, hends⟩
    rw [← hm.cursor] at htext hends
    exact ⟨before, htext, hends⟩
  functionKind := by
    rintro t m m' m₁ r hon hr ⟨hd, -⟩ hfree - heat
    exact functionKind_of_unheard (hx hon).2 hr hd.symm hfree heat

/-- Runs on a text and on the same text behind a lead. -/
def leading (text : String) {lead : List Char} (hlead : Trivia lead) (limit : Nat) : Comparison :=
  altered text lead .core limit hlead fun h => (h rfl).elim

instance (text : String) {lead : List Char} (hlead : Trivia lead) (limit : Nat) :
    (leading text hlead limit).Exact := ⟨trivial⟩

/-- Runs with an extension and without it. -/
def lacking {text : String} {x : Extension} (hx : x ≠ .core → Unheard x text) (limit : Nat) : Comparison :=
  altered text [] x limit .nil fun h => ⟨rfl, hx h⟩

instance {text : String} {x : Extension} (hx : x ≠ .core → Unheard x text) (limit : Nat) :
    (lacking hx limit).Exact := ⟨trivial⟩

end Comparison

end XQuerySyntax
