import XQuerySyntax.Proofs.Boundary

/-! What a match depends on: the text that remains and the lexical state. Where this text stands, what
the last token was and which extensions are switched on has no influence on a match, except that a rule
of an extension that is switched off is not tried. -/

namespace XQuerySyntax

/-- Matchers in front of the same text and in the same lexical state, with the same captures. -/
structure Matcher.Alike (m m' : Matcher) : Prop where
  rest : m'.cursor.rest = m.cursor.rest
  stack : m'.stack = m.stack
  captures : m'.captures = m.captures

theorem Matcher.Alike.state {m m' : Matcher} (h : m.Alike m') : m'.state = m.state :=
  congrArg StateStack.active h.stack

namespace Scan

variable {α β : Type} {m m' m₁ m₂ : Matcher}

/-- The step does the same wherever it finds the same text, lexical state and captures. -/
def Local (step : Scan α) : Prop :=
  ∀ m m' a m₁, m.Alike m' → step m = .ok a m₁ → ∃ m₁', step m' = .ok a m₁' ∧ m₁.Alike m₁'

theorem local_pure (a : α) : Local (pure a : Scan α) := by
  rintro m m' _ _ h ⟨⟩
  exact ⟨m', rfl, h⟩

theorem local_bind {step : Scan α} {next : α → Scan β} (h : Local step) (hn : ∀ a, Local (next a)) :
    Local (step >>= next) := by
  intro m m' b m₂ hm hr
  change EStateM.bind step next m = .ok b m₂ at hr
  unfold EStateM.bind at hr
  cases hs : step m with
  | error d m₁ =>
    rw [hs] at hr
    cases hr
  | ok a m₁ =>
    rw [hs] at hr
    obtain ⟨m₁', hs', hm₁⟩ := h m m' a m₁ hm hs
    obtain ⟨m₂', hr', hm₂⟩ := hn a m₁ m₁' b m₂ hm₁ hr
    refine ⟨m₂', ?_, hm₂⟩
    change EStateM.bind step next m' = .ok b m₂'
    rw [EStateM.bind, hs']
    exact hr'

theorem local_map {step : Scan α} (f : α → β) (h : Local step) : Local (f <$> step) := by
  have hpure (a : α) : Local (pure (f a) : Scan β) := local_pure _
  exact local_bind h hpure

theorem local_ite {c : Prop} [Decidable c] {yes no : Scan α} (hy : Local yes) (hn : Local no) :
    Local (if c then yes else no) := by
  split
  · exact hy
  · exact hn

theorem local_lexeme (scanner : List Char → Scanned α) : Local (lexeme scanner) := by
  intro m m' found m₁ hm hr
  unfold lexeme at hr ⊢
  rw [hm.rest]
  cases hs : scanner m.cursor.rest with
  | found a rest =>
    rw [hs] at hr
    cases hr
    exact ⟨_, rfl, rfl, hm.stack, hm.captures⟩
  | absent =>
    rw [hs] at hr
    cases hr
    exact ⟨_, rfl, hm⟩
  | faulty fault place =>
    rw [hs] at hr
    cases hr

theorem local_skipTrivia : Local skipTrivia := by
  intro m m' a m₁ hm hr
  have hskip := local_map (fun _ => ()) (local_lexeme (scanTrivia m.state.skipsComments)) m m' a m₁ hm hr
  rw [← hm.state] at hskip
  exact hskip

theorem local_char (c : Char) : Local (char c) := by
  intro m m' a m₁ hm hr
  unfold char at hr ⊢
  rw [Cursor.current?, hm.rest]
  split at hr <;> rename_i hc <;> cases hr
  · refine ⟨_, if_pos hc, ?_, hm.stack, hm.captures⟩
    exact congrArg List.tail hm.rest
  · exact ⟨_, if_neg hc, hm⟩

theorem local_keep (capture : Option Capture) : Local (keep capture) := by
  intro m m' a m₁ hm hr
  cases capture <;> cases hr
  · exact ⟨_, rfl, hm⟩
  · exact ⟨_, rfl, hm.rest, hm.stack, congrArg (· ++ _) hm.captures⟩

theorem local_number : Local number := by
  intro m m' a m₁ hm hr
  unfold number at hr ⊢
  cases hs : lexeme scanNumeral m with
  | error d m₂ =>
    rw [hs] at hr
    cases hr
  | ok found m₂ =>
    obtain ⟨m₂', hs', hm₂⟩ := local_lexeme scanNumeral m m' found m₂ hm hs
    rw [hs] at hr
    rw [hs']
    cases found with
    | none =>
      cases hr
      exact ⟨m₂', rfl, hm₂⟩
    | some numeral =>
      dsimp only at hr ⊢
      cases hv : numeral.value <;> rw [hv] at hr <;> cases hr
      exact ⟨m₂', rfl, hm₂⟩

theorem local_placeholder (kind : Placeholder) : Local (placeholder kind) := by
  cases kind with
  | name => exact local_bind (local_lexeme _) fun _ => local_keep _
  | qualifiedName => exact local_bind (local_lexeme _) fun _ => local_keep _
  | string => exact local_bind (local_lexeme _) fun _ => local_keep _
  | number => exact local_bind local_number fun _ => local_keep _

/-- What is read from the matcher without moving it. -/
theorem local_read {read : Matcher → α} (h : ∀ m m', m.Alike m' → read m' = read m) :
    Local fun m => .ok (read m) m := by
  rintro m m' _ _ hm ⟨⟩
  exact ⟨m', congrArg (EStateM.Result.ok · m') (h m m' hm), hm⟩

theorem local_remaining : Local remaining := local_read fun _ _ h => h.rest

theorem local_items (parts : List PatternItem) (afterWord : Bool) (anchor : Option (List Char)) :
    Local (items parts afterWord anchor) := by
  have hnone : Local (pure none : Scan (Option (List Char))) := local_pure none
  induction parts generalizing afterWord anchor with
  | nil => exact local_bind local_remaining fun _ => local_pure _
  | cons part rest ih =>
    cases part with
    | anchor => exact local_bind local_remaining fun _ => ih afterWord _
    | gap =>
      have hseparated : Local separated := local_read fun m m' h => by rw [h.state, h.rest]
      refine local_bind hseparated fun apart => local_bind local_skipTrivia fun _ => ?_
      exact local_ite hnone (ih afterWord anchor)
    | capture kind =>
      exact local_bind (local_placeholder kind) fun _ => local_ite (ih _ anchor) hnone
    | percent => exact local_bind (local_char '%') fun _ => local_ite (ih false anchor) hnone
    | never => exact hnone
    | char c =>
      have hends : Local wordEnds := local_read fun m m' h => by
        rw [Cursor.current?, h.rest]
        rfl
      refine local_bind (local_char c) fun _ => local_ite (local_ite ?_ (ih _ anchor)) hnone
      exact local_bind hends fun _ => local_ite (ih true anchor) hnone

/-! ### Patterns and rules -/

/-- Space in front of a pattern. -/
def skipFront (state : LexicalState) : Scan Unit := if state.skipsBlanks then skipTrivia else pure ()

theorem local_skipFront (state : LexicalState) : Local (skipFront state) :=
  local_ite local_skipTrivia (local_pure ())

/-- Two matchers come to the same text behind the space in front of them. -/
def Meet (m m' : Matcher) : Prop :=
  m'.stack = m.stack ∧ ∀ m₁, skipFront m.state { m with captures := [] } = .ok () m₁ →
    ∃ m₁', skipFront m.state { m' with captures := [] } = .ok () m₁' ∧ m₁.Alike m₁'

theorem meet_of_rest (hrest : m'.cursor.rest = m.cursor.rest) (hstack : m'.stack = m.stack) : Meet m m' :=
  ⟨hstack, fun m₁ h => local_skipFront m.state { m with captures := [] } { m' with captures := [] } () m₁
    ⟨hrest, hstack, rfl⟩ h⟩

theorem pattern_eq (parts : List PatternItem) (m : Matcher) :
    pattern parts m = match skipFront m.state { m with captures := [] } with
      | .error d m₁ => .error d m₁
      | .ok () m₁ =>
        match items parts false none m₁ with
        | .ok (some rest) m₂ => .ok true { m₂.moveTo rest with token := m₁.cursor.rest }
        | .ok none m₂ => .ok false { m₂.moveTo m.cursor.rest with captures := [] }
        | .error d m₂ => .error d (m₂.moveTo m.cursor.rest) := rfl

/-- From matchers that meet, a pattern matches in both or in neither. If it does, they stand in front of
the same text, behind the same token. -/
theorem pattern_of_meet {parts : List PatternItem} {matched : Bool} (h : Meet m m')
    (hr : pattern parts m = .ok matched m₂) :
    ∃ m₂', pattern parts m' = .ok matched m₂' ∧
      (matched = true → m₂.Alike m₂' ∧ m₂'.token = m₂.token) := by
  obtain ⟨hstack, hfront⟩ := h
  have hstate : m'.state = m.state := congrArg StateStack.active hstack
  rw [pattern_eq] at hr
  rw [pattern_eq, hstate]
  cases hskip : skipFront m.state { m with captures := [] } with
  | error d m₁ =>
    rw [hskip] at hr
    cases hr
  | ok _ m₁ =>
    obtain ⟨m₁', hskip', hm₁⟩ := hfront m₁ hskip
    rw [hskip] at hr
    rw [hskip']
    dsimp only at hr ⊢
    cases hitems : items parts false none m₁ with
    | error d m₃ =>
      rw [hitems] at hr
      cases hr
    | ok found m₃ =>
      obtain ⟨m₃', hitems', hm₃⟩ := local_items parts false none m₁ m₁' found m₃ hm₁ hitems
      rw [hitems] at hr
      rw [hitems']
      cases found with
      | none =>
        cases hr
        exact ⟨_, rfl, fun h => nomatch h⟩
      | some rest =>
        cases hr
        exact ⟨_, rfl, fun _ => ⟨⟨rfl, hm₃.stack, hm₃.captures⟩, hm₁.rest⟩⟩

/-- From matchers that meet, a rule that both allow matches in both or in neither. -/
theorem eat_of_meet {r : Rule} {matched : Bool} (h : Meet m m') (ha : m'.admits r = m.admits r)
    (hr : eat r m = .ok matched m₂) :
    ∃ m₂', eat r m' = .ok matched m₂' ∧ (matched = true → m₂.Alike m₂' ∧ m₂'.token = m₂.token) := by
  unfold eat at hr ⊢
  rw [ha]
  split at hr <;> rename_i hadmits
  · rw [if_pos hadmits]
    cases hp : pattern r.items m with
    | error d m₁ =>
      rw [hp] at hr
      cases hr
    | ok found m₁ =>
      obtain ⟨m₁', hp', hm₁⟩ := pattern_of_meet h hp
      rw [hp] at hr
      rw [hp']
      cases found with
      | false =>
        cases hr
        exact ⟨m₁', rfl, fun h => nomatch h⟩
      | true =>
        cases hr
        obtain ⟨halike, htoken⟩ := hm₁ rfl
        refine ⟨_, rfl, fun _ => ⟨⟨halike.rest, ?_, halike.captures⟩, htoken⟩⟩
        exact congrArg (StateStack.apply · r.next) halike.stack
  · cases hr
    exact ⟨m', if_neg hadmits, fun h => nomatch h⟩

theorem peek_of_meet {r : Rule} {matched : Bool} (h : Meet m m') (ha : m'.admits r = m.admits r)
    (hr : peek r m = .ok matched m₂) :
    ∃ m₂', peek r m' = .ok matched m₂' ∧
      (matched = true → m₂'.captures = m₂.captures ∧ m₂'.token = m₂.token) := by
  unfold peek at hr ⊢
  rw [ha]
  split at hr <;> rename_i hadmits
  · rw [if_pos hadmits]
    cases hp : pattern r.items m with
    | error d m₁ =>
      rw [hp] at hr
      cases hr
    | ok found m₁ =>
      obtain ⟨m₁', hp', hm₁⟩ := pattern_of_meet h hp
      rw [hp] at hr
      rw [hp']
      cases hr
      exact ⟨_, rfl, fun hmatched => ⟨(hm₁ hmatched).1.captures, (hm₁ hmatched).2⟩⟩
  · cases hr
    exact ⟨m', if_neg hadmits, fun h => nomatch h⟩

end Scan

end XQuerySyntax
