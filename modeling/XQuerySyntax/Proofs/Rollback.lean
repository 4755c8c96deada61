import XQuerySyntax.Lexing.Matcher

/-! What a scanning step may change. The parts of a pattern move the position and add captures; all
else stays, so a match that fails is undone by going back to the position where it began. -/

namespace EStateM.Result

variable {ε σ α : Type}

/-- The state in which a step ends, well or not. -/
def state : EStateM.Result ε σ α → σ
  | .ok _ s | .error _ s => s

/-- What a step answers, apart from the state in which it ends. -/
def answer : EStateM.Result ε σ α → Except ε α
  | .ok a _ => .ok a
  | .error e _ => .error e

end EStateM.Result

namespace XQuerySyntax

/-- A matcher that differs from another at most in its position and its captures. -/
def Matcher.Moves (m m' : Matcher) : Prop :=
  m' = { m.moveTo m'.cursor.rest with captures := m'.captures }

theorem Matcher.moves_refl (m : Matcher) : m.Moves m := rfl

theorem Matcher.moves_trans {m₁ m₂ m₃ : Matcher} (h₁ : m₁.Moves m₂) (h₂ : m₂.Moves m₃) :
    m₁.Moves m₃ := by
  unfold Matcher.Moves at *
  rw [h₂, h₁]
  rfl

/-- Going back to the old position undoes a step but for its captures. -/
theorem Matcher.moves_moveTo_rest {m m' : Matcher} (h : m.Moves m') :
    m'.moveTo m.cursor.rest = { m with captures := m'.captures } := by
  unfold Matcher.Moves at h
  rw [h]
  rfl

namespace Scan

variable {α β : Type}

/-- However the step ends, only the position and the captures may have changed. -/
def Moves (step : Scan α) : Prop :=
  ∀ m : Matcher, m.Moves (step m).state

theorem moves_pure (a : α) : Moves (pure a : Scan α) := Matcher.moves_refl

theorem moves_bind {step : Scan α} {next : α → Scan β} (h : Moves step) (hn : ∀ a, Moves (next a)) :
    Moves (step >>= next) := by
  intro m
  have hm := h m
  change m.Moves (EStateM.bind step next m).state
  unfold EStateM.bind
  cases hs : step m with
  | ok a m' =>
    rw [hs] at hm
    exact Matcher.moves_trans hm (hn a m')
  | error d m' =>
    rw [hs] at hm
    exact hm

theorem moves_map {step : Scan α} (f : α → β) (h : Moves step) : Moves (f <$> step) := by
  intro m
  have hm := h m
  change m.Moves (EStateM.map f step m).state
  unfold EStateM.map
  cases hs : step m <;> rw [hs] at hm <;> exact hm

theorem moves_lexeme (scanner : List Char → Scanned α) : Moves (lexeme scanner) := by
  intro m
  unfold lexeme
  split <;> rfl

theorem moves_skipTrivia : Moves skipTrivia :=
  fun m => moves_map _ (moves_lexeme (scanTrivia m.state.skipsComments)) m

theorem moves_char (c : Char) : Moves (char c) := by
  intro m
  unfold char
  split <;> rfl

theorem moves_keep (capture : Option Capture) : Moves (keep capture) := by
  intro m
  cases capture <;> rfl

theorem moves_number : Moves number := by
  intro m
  have hm := moves_lexeme scanNumeral m
  unfold number
  split <;> rename_i hs <;> rw [hs] at hm
  · split <;> exact hm
  · exact hm
  · exact hm

theorem moves_placeholder (kind : Placeholder) : Moves (placeholder kind) := by
  cases kind with
  | name => exact moves_bind (moves_lexeme _) fun _ => moves_keep _
  | qualifiedName => exact moves_bind (moves_lexeme _) fun _ => moves_keep _
  | string => exact moves_bind (moves_lexeme _) fun _ => moves_keep _
  | number => exact moves_bind moves_number fun _ => moves_keep _

theorem moves_remaining : Moves remaining := Matcher.moves_refl

theorem moves_separated : Moves separated := Matcher.moves_refl

theorem moves_wordEnds : Moves wordEnds := Matcher.moves_refl

theorem moves_ite {c : Prop} [Decidable c] {yes no : Scan α} (hy : Moves yes) (hn : Moves no) :
    Moves (if c then yes else no) := by
  split
  · exact hy
  · exact hn

/-- The parts of a pattern touch neither the lexical state nor the beginning of the last token. -/
theorem moves_items (parts : List PatternItem) (afterWord : Bool) (anchor : Option (List Char)) :
    Moves (items parts afterWord anchor) := by
  have none_ok : Moves (pure none : Scan (Option (List Char))) := moves_pure none
  induction parts generalizing afterWord anchor with
  | nil => exact moves_bind moves_remaining fun _ => moves_pure _
  | cons part rest ih =>
    cases part with
    | anchor => exact moves_bind moves_remaining fun _ => ih afterWord _
    | gap =>
      refine moves_bind moves_separated fun apart => ?_
      refine moves_bind moves_skipTrivia fun _ => ?_
      exact moves_ite none_ok (ih afterWord anchor)
    | capture kind =>
      exact moves_bind (moves_placeholder kind) fun matched => moves_ite (ih _ anchor) none_ok
    | percent =>
      exact moves_bind (moves_char '%') fun matched => moves_ite (ih false anchor) none_ok
    | never => exact none_ok
    | char c =>
      refine moves_bind (moves_char c) fun matched => moves_ite (moves_ite ?_ (ih _ anchor)) none_ok
      exact moves_bind moves_wordEnds fun ended => moves_ite (ih true anchor) none_ok

/-! ### The three outcomes of a match -/

/-- What a match leaves behind: another position with a token that begins where the match did, or
the old place, without captures if the pattern does not match. -/
def Settles (m : Matcher) : EStateM.Result Diagnostic Matcher Bool → Prop
  | .ok true m' => ∃ rest token captures, m' = { m.moveTo rest with token, captures }
  | .ok false m' => m' = { m with captures := [] }
  | .error _ m' => ∃ captures, m' = { m with captures }

theorem pattern_settles (parts : List PatternItem) (m : Matcher) : Settles m (pattern parts m) := by
  let m₀ : Matcher := { m with captures := [] }
  have hskip : Moves (if m.state.skipsBlanks then skipTrivia else pure ()) :=
    moves_ite moves_skipTrivia (moves_pure ())
  have h₁ : m₀.Moves ((if m.state.skipsBlanks then skipTrivia else pure () : Scan Unit) m₀).state :=
    hskip m₀
  unfold pattern
  -- An error in the blanks in front of the pattern comes from the lexeme alone, which never moves.
  have hfault : ∀ d m₁, (if m.state.skipsBlanks then skipTrivia else pure () : Scan Unit) m₀ =
      .error d m₁ → m₁ = m₀ := by
    intro d m₁ hs
    split at hs
    · simp only [skipTrivia, lexeme, Functor.map, EStateM.map] at hs
      split at hs <;> rename_i he
      · cases hs
      · split at he <;> cases he
        cases hs
        rfl
    · cases hs
  dsimp only
  split
  · rename_i d m₁ hs
    exact ⟨[], hfault d m₁ hs⟩
  · rename_i m₁ hs
    change (if m.state.skipsBlanks then skipTrivia else pure () : Scan Unit) m₀ = _ at hs
    rw [hs] at h₁
    have h₂ := Matcher.moves_trans h₁ (moves_items parts false none m₁)
    split
    · rename_i rest m₂ hi
      rw [hi] at h₂
      exact ⟨rest, m₁.cursor.rest, m₂.captures, by rw [show m₂ = _ from h₂]; rfl⟩
    · rename_i m₂ hi
      rw [hi] at h₂
      have hb := Matcher.moves_moveTo_rest h₂
      exact congrArg (fun x : Matcher => { x with captures := [] }) hb
    · rename_i d m₂ hi
      rw [hi] at h₂
      exact ⟨m₂.captures, Matcher.moves_moveTo_rest h₂⟩

/-- A rule that matches makes its state change on top of what its pattern does; one that does not
leaves the matcher in place. -/
theorem eat_cases (r : Rule) (m : Matcher) :
    (∃ m', eat r m = .ok true (m'.apply r.next) ∧ m.admits r ∧ pattern r.items m = .ok true m') ∨
    (∃ m', eat r m = .ok false m' ∧ ∃ captures, m' = { m with captures }) ∨
    (∃ d m', eat r m = .error d m' ∧ ∃ captures, m' = { m with captures }) := by
  have hp := pattern_settles r.items m
  unfold eat
  by_cases ha : m.admits r
  · rw [if_pos ha]
    match hr : pattern r.items m with
    | .ok true m' => exact .inl ⟨m', rfl, ha, rfl⟩
    | .ok false m' =>
      rw [hr] at hp
      exact .inr (.inl ⟨m', rfl, [], hp⟩)
    | .error d m' =>
      rw [hr] at hp
      exact .inr (.inr ⟨d, m', rfl, hp⟩)
  · rw [if_neg ha]
    exact .inr (.inl ⟨m, rfl, m.captures, rfl⟩)

/-- Testing a rule answers what matching it would answer, from the same place in the text and in the
same lexical state. -/
theorem peek_cases (r : Rule) (m : Matcher) :
    (peek r m).answer = (eat r m).answer ∧
      ∃ token captures, (peek r m).state = { m with token, captures } := by
  have hp := pattern_settles r.items m
  unfold peek eat
  by_cases ha : m.admits r
  · rw [if_pos ha, if_pos ha]
    match hr : pattern r.items m with
    | .ok true m' =>
      rw [hr] at hp
      obtain ⟨rest, token, captures, he⟩ := hp
      exact ⟨rfl, token, captures, congrArg (fun x : Matcher => x.moveTo m.cursor.rest) he⟩
    | .ok false m' =>
      rw [hr] at hp
      exact ⟨rfl, m.token, [], congrArg (fun x : Matcher => x.moveTo m.cursor.rest) hp⟩
    | .error d m' =>
      rw [hr] at hp
      obtain ⟨captures, he⟩ := hp
      exact ⟨rfl, m.token, captures, he⟩
  · rw [if_neg ha, if_neg ha]
    exact ⟨rfl, m.token, m.captures, rfl⟩

end Scan

/-- A matcher at the same position, in the same lexical state with the same saved states, and with
the same last token. -/
structure Matcher.SamePlace (m m' : Matcher) : Prop where
  cursor : m'.cursor = m.cursor
  stack : m'.stack = m.stack
  token : m'.token = m.token

namespace Scan

/-- A rule that does not match leaves the matcher in place. -/
theorem samePlace_of_eat {r : Rule} {m m' : Matcher} (h : eat r m = .ok false m') : m.SamePlace m' := by
  obtain ⟨_, he, _⟩ | ⟨_, he, captures, rfl⟩ | ⟨d, _, he, _⟩ := eat_cases r m <;> rw [he] at h <;>
    cases h
  exact ⟨rfl, rfl, rfl⟩

/-- From every state of a matcher, a pattern or a rule that does not match, or that meets malformed
text, leaves the matcher in place, and a pattern that does not match leaves no captures. Testing a
rule never moves the position or the lexical state, and answers what matching it would answer. -/
theorem failed_match_leaves_matcher_in_place (parts : List PatternItem) (r : Rule) (m : Matcher) :
    (∀ m', pattern parts m = .ok false m' → m.SamePlace m' ∧ m'.captures = []) ∧
    (∀ d m', pattern parts m = .error d m' → m.SamePlace m') ∧
    (∀ m', eat r m = .ok false m' → m.SamePlace m') ∧
    (∀ d m', eat r m = .error d m' → m.SamePlace m') ∧
    (peek r m).state.cursor = m.cursor ∧ (peek r m).state.stack = m.stack ∧
    (peek r m).answer = (eat r m).answer := by
  have hp := pattern_settles parts m
  obtain ⟨hanswer, token, captures, hstate⟩ := peek_cases r m
  refine ⟨?_, ?_, ?_, ?_, by rw [hstate], by rw [hstate], hanswer⟩
  · intro m' h
    rw [h] at hp
    rw [show m' = _ from hp]
    exact ⟨⟨rfl, rfl, rfl⟩, rfl⟩
  · intro d m' h
    rw [h] at hp
    obtain ⟨captures, rfl⟩ := hp
    exact ⟨rfl, rfl, rfl⟩
  · intro m' h
    obtain ⟨_, he, _⟩ | ⟨m₁, he, captures, rfl⟩ | ⟨d, _, he, _⟩ := eat_cases r m
    · rw [he] at h
      cases h
    · rw [he] at h
      cases h
      exact ⟨rfl, rfl, rfl⟩
    · rw [he] at h
      cases h
  · intro d m' h
    obtain ⟨_, he, _⟩ | ⟨_, he, _⟩ | ⟨d, m₁, he, captures, rfl⟩ := eat_cases r m
    · rw [he] at h
      cases h
    · rw [he] at h
      cases h
    · rw [he] at h
      cases h
      exact ⟨rfl, rfl, rfl⟩

end Scan

end XQuerySyntax

/-! ### What comes next

What lies behind the matcher has no influence on a match, so a rule that a test has found is there to be
matched, and a match is the same wherever the text in front of it has come from. -/

namespace XQuerySyntax

/-- What a matcher has behind it: the text that it began with, where the last token began, and how often
it came back although nothing was saved. -/
structure Matcher.Trail where
  source : List Char
  token : List Char
  strayPops : Nat

/-- The matcher with another trail behind it. -/
def Matcher.after (m : Matcher) (trail : Trail) : Matcher :=
  { m with
    cursor := { m.cursor with source := trail.source }
    token := trail.token
    strayPops := trail.strayPops }

end XQuerySyntax

namespace XQuerySyntax.Scan

variable {α β : Type}

/-- The step does not look at what lies behind the matcher, and leaves it as it is. -/
def Blind (step : Scan α) : Prop :=
  ∀ (m : Matcher) (trail : Matcher.Trail),
    (step (m.after trail)).answer = (step m).answer ∧
      (step (m.after trail)).state = (step m).state.after trail

theorem blind_pure (a : α) : Blind (pure a : Scan α) := fun _ _ => ⟨rfl, rfl⟩

theorem blind_bind {step : Scan α} {next : α → Scan β} (h : Blind step) (hn : ∀ a, Blind (next a)) :
    Blind (step >>= next) := by
  intro m trail
  obtain ⟨hanswer, hstate⟩ := h m trail
  change (EStateM.bind step next (m.after trail)).answer = (EStateM.bind step next m).answer ∧
    (EStateM.bind step next (m.after trail)).state =
      (EStateM.bind step next m).state.after trail
  unfold EStateM.bind
  cases hs : step m <;> cases ht : step (m.after trail) <;> rw [hs, ht] at hanswer hstate
  case ok.ok a m₁ _ m₂ =>
    cases hanswer
    obtain rfl : m₂ = m₁.after trail := hstate
    exact hn a m₁ trail
  case error.error d m₁ _ m₂ =>
    cases hanswer
    obtain rfl : m₂ = m₁.after trail := hstate
    exact ⟨rfl, rfl⟩
  all_goals cases hanswer

theorem blind_map {step : Scan α} (f : α → β) (h : Blind step) : Blind (f <$> step) := by
  have hpure (a : α) : Blind (pure (f a) : Scan β) := blind_pure _
  exact blind_bind h hpure

theorem blind_ite {c : Prop} [Decidable c] {yes no : Scan α} (hy : Blind yes) (hn : Blind no) :
    Blind (if c then yes else no) := by
  split
  · exact hy
  · exact hn

theorem blind_lexeme (scanner : List Char → Scanned α) : Blind (lexeme scanner) := by
  intro m trail
  have hrest : (m.after trail).cursor.rest = m.cursor.rest := rfl
  unfold lexeme
  rw [hrest]
  cases scanner m.cursor.rest <;> exact ⟨rfl, rfl⟩

theorem blind_skipTrivia : Blind skipTrivia :=
  fun m trail => blind_map _ (blind_lexeme (scanTrivia m.state.skipsComments)) m trail

theorem blind_char (c : Char) : Blind (char c) := by
  intro m trail
  have hcurrent : (m.after trail).cursor.current? = m.cursor.current? := rfl
  unfold char
  rw [hcurrent]
  split <;> exact ⟨rfl, rfl⟩

theorem blind_keep (capture : Option Capture) : Blind (keep capture) := by
  intro m trail
  cases capture <;> exact ⟨rfl, rfl⟩

theorem blind_number : Blind number := by
  intro m trail
  obtain ⟨hanswer, hstate⟩ := blind_lexeme scanNumeral m trail
  unfold number
  cases hs : lexeme scanNumeral m <;> cases ht : lexeme scanNumeral (m.after trail) <;>
    rw [hs, ht] at hanswer hstate
  case ok.ok found m₁ _ m₂ =>
    cases hanswer
    obtain rfl : m₂ = m₁.after trail := hstate
    cases found with
    | none => exact ⟨rfl, rfl⟩
    | some numeral =>
      dsimp only
      cases numeral.value <;> exact ⟨rfl, rfl⟩
  case error.error d m₁ _ m₂ =>
    cases hanswer
    obtain rfl : m₂ = m₁.after trail := hstate
    exact ⟨rfl, rfl⟩
  all_goals cases hanswer

theorem blind_placeholder (kind : Placeholder) : Blind (placeholder kind) := by
  cases kind with
  | name => exact blind_bind (blind_lexeme _) fun _ => blind_keep _
  | qualifiedName => exact blind_bind (blind_lexeme _) fun _ => blind_keep _
  | string => exact blind_bind (blind_lexeme _) fun _ => blind_keep _
  | number => exact blind_bind blind_number fun _ => blind_keep _

theorem blind_remaining : Blind remaining := fun _ _ => ⟨rfl, rfl⟩

theorem blind_items (parts : List PatternItem) (afterWord : Bool) (anchor : Option (List Char)) :
    Blind (items parts afterWord anchor) := by
  have hnone : Blind (pure none : Scan (Option (List Char))) := blind_pure none
  induction parts generalizing afterWord anchor with
  | nil => exact blind_bind blind_remaining fun _ => blind_pure _
  | cons part rest ih =>
    cases part with
    | anchor => exact blind_bind blind_remaining fun _ => ih afterWord _
    | gap =>
      have hseparated : Blind separated := fun _ _ => ⟨rfl, rfl⟩
      refine blind_bind hseparated fun apart => blind_bind blind_skipTrivia fun _ => ?_
      exact blind_ite hnone (ih afterWord anchor)
    | capture kind =>
      exact blind_bind (blind_placeholder kind) fun _ => blind_ite (ih _ anchor) hnone
    | percent => exact blind_bind (blind_char '%') fun _ => blind_ite (ih false anchor) hnone
    | never => exact hnone
    | char c =>
      have hends : Blind wordEnds := fun _ _ => ⟨rfl, rfl⟩
      refine blind_bind (blind_char c) fun _ => blind_ite (blind_ite ?_ (ih _ anchor)) hnone
      exact blind_bind hends fun _ => blind_ite (ih true anchor) hnone

/-- A pattern matches if its parts do behind the blanks in front of it. -/
theorem answer_pattern (parts : List PatternItem) (m : Matcher) :
    (pattern parts m).answer =
      (((if m.state.skipsBlanks then skipTrivia else pure ()) >>= fun _ => items parts false none)
        { m with captures := [] }).answer.map Option.isSome := by
  change _ = (EStateM.bind (if m.state.skipsBlanks then skipTrivia else pure ())
    (fun _ => items parts false none) { m with captures := [] }).answer.map Option.isSome
  unfold pattern EStateM.bind
  dsimp only
  cases (if m.state.skipsBlanks then skipTrivia else pure () : Scan Unit)
      { m with captures := [] } with
  | error d m₁ => rfl
  | ok _ m₁ =>
    dsimp only
    cases items parts false none m₁ with
    | error d m₂ => rfl
    | ok found m₂ => cases found <;> rfl

theorem answer_eat (r : Rule) (m : Matcher) :
    (eat r m).answer = if m.admits r then (pattern r.items m).answer else .ok false := by
  unfold eat
  split
  · cases pattern r.items m with
    | error d m₁ => rfl
    | ok matched m₁ => cases matched <;> rfl
  · rfl

/-- Neither what lies behind the matcher nor what was captured there has an influence on the answer of a
match. -/
theorem answer_eat_after (r : Rule) (m : Matcher) (trail : Matcher.Trail) (captures : Captures) :
    (eat r { m.after trail with captures }).answer = (eat r m).answer := by
  have hparts : Blind ((if m.state.skipsBlanks then skipTrivia else pure ()) >>=
      fun _ => items r.items false none) :=
    blind_bind (blind_ite blind_skipTrivia (blind_pure ())) fun _ => blind_items _ _ _
  have hpattern : (pattern r.items { m.after trail with captures }).answer =
      (pattern r.items m).answer := by
    rw [answer_pattern, answer_pattern]
    exact congrArg _ (hparts { m with captures := [] } trail).1
  rw [answer_eat, answer_eat, hpattern]
  rfl

/-- A rule that a test has found can be matched next. -/
theorem eat_of_peek {r : Rule} {m m' : Matcher} (h : peek r m = .ok true m') :
    (eat r m').answer = .ok true := by
  obtain ⟨hanswer, token, captures, hstate⟩ := peek_cases r m
  rw [h] at hanswer hstate
  obtain rfl : m' = { m with token, captures } := hstate
  have hanswer' := answer_eat_after r m ⟨m.cursor.source, token, m.strayPops⟩ captures
  exact hanswer'.trans hanswer.symm

end XQuerySyntax.Scan
