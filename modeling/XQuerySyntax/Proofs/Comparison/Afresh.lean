import XQuerySyntax.Proofs.Comparison.Altered

/-! A run begun afresh. Two runs stand at the same place of one text, but the last tokens in front of
them may differ, and so may what these captured. No production looks back at a token that it has not
read itself, so the runs do the same. Nor does one look back at the text in front of the place, at the
order in which namespaces have been bound, or at what has been recorded. -/

namespace XQuerySyntax.Comparison

open Scan

/-- Matchers at the same place of one text. Once a token has been read the last tokens are the same. -/
structure Afresh (t : Stage) (m m' : Matcher) : Prop where
  size : m'.cursor.size = m.cursor.size
  rest : m'.cursor.rest = m.cursor.rest
  stack : m'.stack = m.stack
  extensions : m'.extensions = m.extensions
  token : t ≠ .anywhere → m'.token = m.token

namespace Afresh

variable {t : Stage} {m m' m₁ m₁' : Matcher}

theorem meet (h : Afresh t m m') : Meet m m' := meet_of_rest h.rest h.stack

theorem admits_eq (h : Afresh t m m') (r : Rule) : m'.admits r = m.admits r := by
  rw [Matcher.admits, Matcher.admits, Matcher.state, h.stack, h.extensions]
  rfl

theorem of_samePlace (h : Afresh t m m') (hm : m.SamePlace m₁) (hm' : m'.SamePlace m₁')
    (he : m₁.extensions = m.extensions) (he' : m₁'.extensions = m'.extensions) : Afresh t m₁ m₁' where
  size := by rw [hm'.cursor, hm.cursor, h.size]
  rest := by rw [hm'.cursor, hm.cursor, h.rest]
  stack := by rw [hm'.stack, hm.stack, h.stack]
  extensions := by rw [he', he, h.extensions]
  token ht := by rw [hm'.token, hm.token, h.token ht]

theorem eat (h : Afresh t m m') {r : Rule} {matched : Bool} (hr : Scan.eat r m = .ok matched m₁) :
    ∃ m₁', Scan.eat r m' = .ok matched m₁' ∧ if matched then
      Afresh .behind m₁ m₁' ∧ m₁'.captures = m₁.captures else Afresh t m₁ m₁' := by
  obtain ⟨m₁', hr', halike⟩ := eat_of_meet h.meet (h.admits_eq r) hr
  have hs := settings_eat hr
  have hs' := settings_eat hr'
  refine ⟨m₁', hr', ?_⟩
  cases matched with
  | true =>
    obtain ⟨halike, htoken⟩ := halike rfl
    refine ⟨⟨?_, halike.rest, halike.stack, ?_, fun _ => htoken⟩, halike.captures⟩
    · rw [hs'.size, hs.size, h.size]
    · rw [hs'.extensions, hs.extensions, h.extensions]
  | false =>
    exact h.of_samePlace (samePlace_of_eat hr) (samePlace_of_eat hr') hs.extensions hs'.extensions

theorem peek (h : Afresh t m m') {r : Rule} {matched : Bool} (hr : Scan.peek r m = .ok matched m₁) :
    ∃ m₁', Scan.peek r m' = .ok matched m₁' ∧ if matched then
      Afresh t.seen m₁ m₁' ∧ m₁'.captures = m₁.captures else Afresh t m₁ m₁' := by
  obtain ⟨m₁', hr', hsame⟩ := peek_of_meet h.meet (h.admits_eq r) hr
  refine ⟨m₁', hr', ?_⟩
  cases matched with
  | true =>
    obtain ⟨hcaptures, htoken⟩ := hsame rfl
    obtain ⟨-, token, captures, hm₁⟩ := peek_cases r m
    obtain ⟨-, token', captures', hm₁'⟩ := peek_cases r m'
    rw [hr] at hm₁
    rw [hr'] at hm₁'
    obtain rfl : m₁ = { m with token, captures } := hm₁
    obtain rfl : m₁' = { m' with token := token', captures := captures' } := hm₁'
    exact ⟨⟨h.size, h.rest, h.stack, h.extensions, fun _ => htoken⟩, hcaptures⟩
  | false =>
    exact h.of_samePlace (samePlace_of_peek hr) (samePlace_of_peek hr') (settings_peek hr).extensions
      (settings_peek hr').extensions

theorem lexeme {α : Type} (h : Afresh t m m') {scanner : List Char → Scanned α} {found : Option α}
    (hr : Scan.lexeme scanner m = .ok found m₁) :
    ∃ m₁', Scan.lexeme scanner m' = .ok found m₁' ∧ Afresh t m₁ m₁' := by
  unfold Scan.lexeme at hr ⊢
  rw [h.rest]
  cases hs : scanner m.cursor.rest with
  | found a rest =>
    rw [hs] at hr
    cases hr
    exact ⟨_, rfl, h.size, rfl, h.stack, h.extensions, h.token⟩
  | absent =>
    rw [hs] at hr
    cases hr
    exact ⟨m', rfl, h⟩
  | faulty fault place =>
    rw [hs] at hr
    cases hr

theorem atEnd (h : Afresh t m m') {ended : Bool} (hr : Scan.atEnd m = .ok ended m₁) :
    ∃ m₁', Scan.atEnd m' = .ok ended m₁' ∧ Afresh t m₁ m₁' := by
  unfold Scan.atEnd at hr ⊢
  cases hl : Scan.lexeme (scanTrivia true) m with
  | error d m₂ =>
    rw [hl] at hr
    cases hr
  | ok found m₂ =>
    obtain ⟨m₂', hl', hm₂⟩ := h.lexeme hl
    rw [hl] at hr
    cases hr
    have hended : m₂'.cursor.atEnd = m₂.cursor.atEnd := congrArg List.isEmpty hm₂.rest
    rw [hl', ← hended]
    exact ⟨_, rfl, hm₂.size, h.rest, hm₂.stack, hm₂.extensions, hm₂.token⟩

end Afresh

/-! ### Errors

A scanning step that stops stops with the same error in both runs, since no step looks back. -/

section

variable {t : Stage} {m m' m₁ : Matcher} {d : Diagnostic}

theorem Afresh.abreast (h : Afresh t m m') : m.Abreast m' := ⟨h.size, h.rest⟩

/-- A matcher beside another is that one with another trail and other captures. -/
theorem Afresh.eq_after (h : Afresh t m m') : m' =
    { m.after ⟨m'.cursor.source, m'.token, m'.strayPops⟩ with captures := m'.captures } := by
  obtain ⟨⟨size, source, rest⟩, stack, captures, token, extensions, strayPops⟩ := m
  obtain ⟨⟨size', source', rest'⟩, stack', captures', token', extensions', strayPops'⟩ := m'
  obtain ⟨hsize, hrest, hstack, hextensions, -⟩ := h
  obtain rfl : size' = size := hsize
  obtain rfl : rest' = rest := hrest
  obtain rfl : stack' = stack := hstack
  obtain rfl : extensions' = extensions := hextensions
  rfl

theorem error_of_answer {α : Type} {r r' : EStateM.Result Diagnostic Matcher α}
    (h : r'.answer = r.answer) (hr : r = .error d m₁) : ∃ m₁', r' = .error d m₁' := by
  rw [hr] at h
  cases r' with
  | ok a m₂ => cases h
  | error d' m₂ =>
    cases h
    exact ⟨m₂, rfl⟩

theorem Afresh.eat_error (h : Afresh t m m') {r : Rule} (hr : Scan.eat r m = .error d m₁) :
    ∃ m₁', Scan.eat r m' = .error d m₁' := by
  refine error_of_answer ?_ hr
  rw [h.eq_after]
  exact answer_eat_after r m _ _

theorem Afresh.peek_error (h : Afresh t m m') {r : Rule} (hr : Scan.peek r m = .error d m₁) :
    ∃ m₁', Scan.peek r m' = .error d m₁' := by
  refine error_of_answer ?_ hr
  rw [(peek_cases r m').1, (peek_cases r m).1, h.eq_after]
  exact answer_eat_after r m _ _

theorem Afresh.lexeme_error {α : Type} (h : Afresh t m m') {scanner : List Char → Scanned α}
    (hr : Scan.lexeme scanner m = .error d m₁) : ∃ m₁', Scan.lexeme scanner m' = .error d m₁' := by
  unfold Scan.lexeme at hr ⊢
  rw [h.rest]
  cases hs : scanner m.cursor.rest with
  | found | absent =>
    rw [hs] at hr
    cases hr
  | faulty fault place =>
    rw [hs] at hr
    cases hr
    have hoffset : m'.cursor.offsetOf place = m.cursor.offsetOf place :=
      congrArg (· - byteLength place) h.size
    refine ⟨m', ?_⟩
    rw [← hoffset]

theorem Afresh.atEnd_error (h : Afresh t m m') (hr : Scan.atEnd m = .error d m₁) :
    ∃ m₁', Scan.atEnd m' = .error d m₁' := by
  unfold Scan.atEnd at hr ⊢
  cases hl : Scan.lexeme (scanTrivia true) m with
  | ok found m₂ =>
    rw [hl] at hr
    cases hr
  | error d' m₂ =>
    obtain ⟨m₂', hl'⟩ := h.lexeme_error hl
    rw [hl] at hr
    cases hr
    rw [hl']
    exact ⟨_, rfl⟩

end

namespace Afresh

variable {t : Stage} {m m' : Matcher}

theorem follows_eat (h : Afresh t m m') (strict : Prop) (r : Rule) :
    Follows strict (fun matched m m' => if matched then
      Afresh .behind m m' ∧ m'.captures = m.captures else Afresh t m m') (Scan.eat r m) (Scan.eat r m') := by
  cases hr : Scan.eat r m with
  | error d m₁ => exact fun _ => h.eat_error hr
  | ok matched m₁ => exact h.eat hr

theorem follows_peek (h : Afresh t m m') (strict : Prop) (r : Rule) :
    Follows strict (fun matched m m' => if matched then
      Afresh t.seen m m' ∧ m'.captures = m.captures else Afresh t m m') (Scan.peek r m) (Scan.peek r m') := by
  cases hr : Scan.peek r m with
  | error d m₁ => exact fun _ => h.peek_error hr
  | ok matched m₁ => exact h.peek hr

theorem follows_lexeme {α : Type} (h : Afresh t m m') (strict : Prop) (scanner : List Char → Scanned α) :
    Follows strict (fun _ => Afresh t) (Scan.lexeme scanner m) (Scan.lexeme scanner m') := by
  cases hr : Scan.lexeme scanner m with
  | error d m₁ => exact fun _ => h.lexeme_error hr
  | ok found m₁ => exact h.lexeme hr

theorem follows_atEnd (h : Afresh t m m') (strict : Prop) :
    Follows strict (fun _ => Afresh t) (Scan.atEnd m) (Scan.atEnd m') := by
  cases hr : Scan.atEnd m with
  | error d m₁ => exact fun _ => h.atEnd_error hr
  | ok ended m₁ => exact h.atEnd hr

end Afresh

/-- Runs from the same place of one text, behind tokens that may differ. -/
def afresh (limit : Nat) : Comparison where
  left := id
  right := id
  dropped := .core
  on := False
  strict := False
  still := False
  limit := limit
  Scans := Afresh
  Declaring _ := True
  left_eq_right _ := rfl
  not_strict := False.elim
  core_of_strict := False.elim
  still_of_strict _ := False.elim
  id_of_still := False.elim
  id_of_strict := False.elim
  abreast_of_strict := False.elim
  scans_of_seen := by
    intro t m m' h
    have hseen : t.seen ≠ .anywhere := by cases t <;> exact nofun
    exact { h with token := fun _ => h.token hseen }
  scans_of_behind h := { h with token := fun _ => h.token nofun }
  behind_of_still := False.elim
  follows_eat _ h := h.follows_eat False _
  eat_dropped := by
    rintro t m m' r ⟨hx, hcore⟩
    exact (hcore hx.symm).elim
  follows_peek _ h := h.follows_peek False _
  follows_lexeme _ h := h.follows_lexeme False _
  follows_atEnd h := h.follows_atEnd False
  scans_goto := by
    rintro t m m' state - h
    exact { h with stack := congrArg (StateStack.goto · state) h.stack }
  scans_mark := by
    intro m m' h
    refine ⟨by rw [Matcher.mark, Matcher.mark, h.rest, h.stack], fun n n' hn => ?_⟩
    exact { hn with rest := rfl, stack := rfl }
  like_tokenStart h := by
    rw [Matcher.tokenStart, Matcher.tokenStart, h.token nofun, Cursor.offsetOf, Cursor.offsetOf, h.size]
  like_nextOffset h := by
    rw [Matcher.nextOffset, Matcher.nextOffset, Cursor.offsetOf, Cursor.offsetOf, h.size, h.rest]
  atEnd_eq h := by
    rw [Cursor.atEnd, h.rest]
    rfl
  size_le h := Nat.le_of_eq h.size.symm
  declaring_eat _ _ _ := trivial
  declaring_of_samePlace _ _ := trivial
  functionKind := False.elim

/-- Runs that go on from the same place of texts that differ in front of it. The order in which their
namespaces were bound may differ, and so may what they have recorded before. They stop alike. -/
def reordered (limit : Nat) (earlier earlier' : List Diagnostic) : Comparison where
  __ := afresh limit
  strict := True
  exact := False
  earlier := earlier
  earlier' := earlier'
  not_strict := False.elim
  core_of_strict _ := rfl
  still_of_strict := False.elim
  id_of_strict _ := ⟨rfl, rfl⟩
  abreast_of_strict _ h := h.abreast
  follows_eat _ h := h.follows_eat True _
  follows_peek _ h := h.follows_peek True _
  follows_lexeme _ h := h.follows_lexeme True _
  follows_atEnd h := h.follows_atEnd True

end XQuerySyntax.Comparison
