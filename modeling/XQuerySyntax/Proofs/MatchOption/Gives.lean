import XQuerySyntax.Proofs.Lexing.Token
import XQuerySyntax.Proofs.RoundTrip.Reads

/-! What is said of a text by what a parser answers on it. Every answer that a parser can give from a state
is followed forward from that state: a rule that matches has found a token of the text, and a rule that does
not match has found that there is none. -/

namespace XQuerySyntax

variable {r : Rule}

/-- The rule matches nowhere in markup. -/
def Rule.keepsOutOfMarkup (r : Rule) : Bool := r.states.toList.all fun state => !state.isMarkup

theorem Rule.skips_of_keepsOutOfMarkup (hr : r.keepsOutOfMarkup) {state : LexicalState}
    (h : r.states.contains state) : state.skipsBlanks = true ∧ state.skipsComments = true := by
  have hmem : state ∈ r.states.toList := by
    refine List.mem_filter.2 ⟨?_, h⟩
    cases state <;> decide
  have hmarkup := List.all_eq_true.1 hr state hmem
  cases state <;> first | exact ⟨rfl, rfl⟩ | exact absurd hmarkup (by decide)

namespace ParserState

variable {s s₁ s₂ : ParserState}

/-- The text that remains. -/
def rest (s : ParserState) : List Char := s.scan.cursor.rest

/-- The state behind a match: another place, and what the match leaves there. -/
def movedTo (s : ParserState) (rest token : List Char) (captures : Captures) : ParserState :=
  { s with scan := { s.scan.moveTo rest with token, captures } }

/-- The state behind a match of the rule. -/
def behind (s : ParserState) (r : Rule) (rest token : List Char) (captures : Captures) : ParserState :=
  { s with scan := (s.movedTo rest token captures).scan.apply r.next }

/-- At most the place and what the last match has left there are not the same. -/
def Moves (s s' : ParserState) : Prop := ∃ rest token captures, s' = s.movedTo rest token captures

theorem Moves.refl (s : ParserState) : s.Moves s := ⟨s.rest, s.scan.token, s.scan.captures, rfl⟩

theorem Moves.trans (h : s.Moves s₁) (h' : s₁.Moves s₂) : s.Moves s₂ := by
  obtain ⟨_, _, _, rfl⟩ := h
  obtain ⟨rest, token, captures, rfl⟩ := h'
  exact ⟨rest, token, captures, rfl⟩

theorem Moves.frame (h : s.Moves s₁) : s₁.frame = s.frame := by
  obtain ⟨_, _, _, rfl⟩ := h
  rfl

theorem Moves.admits (h : s.Moves s₁) (r : Rule) : s₁.scan.admits r = s.scan.admits r := by
  obtain ⟨_, _, _, rfl⟩ := h
  rfl

theorem behind_eq (hr : r.next = .stay) (s : ParserState) (rest token : List Char) (captures : Captures) :
    s.behind r rest token captures = s.movedTo rest token captures := by
  rw [behind, hr]
  rfl

end ParserState

namespace Parser

variable {α β σ : Type} {s : ParserState} {p : Parser α} {next : α → Parser β} {Q Q' : α → ParserState → Prop}
  {R : β → ParserState → Prop}

/-- Whatever the parser answers from the state is as `Q` says, and so is the state behind it. -/
def Gives (s : ParserState) (p : Parser α) (Q : α → ParserState → Prop) : Prop :=
  ∀ a s', p s = .ok a s' → Q a s'

theorem gives_pure {a : α} (h : Q a s) : Gives s (pure a) Q := by
  rintro _ _ ⟨⟩
  exact h

theorem gives_bind (h : Gives s p fun a s₁ => Gives s₁ (next a) R) : Gives s (p >>= next) R := by
  intro b s₂ hp
  obtain ⟨a, s₁, hp, hnext⟩ := of_bind_ok hp
  exact h a s₁ hp b s₂ hnext

theorem Gives.weaken (h : Gives s p Q) (hi : ∀ a s₁, Q a s₁ → Q' a s₁) : Gives s p Q' :=
  fun a s₁ hp => hi a s₁ (h a s₁ hp)

theorem Gives.bind (h : Gives s p Q) (hn : ∀ a s₁, Q a s₁ → Gives s₁ (next a) R) : Gives s (p >>= next) R :=
  gives_bind (h.weaken hn)

theorem gives_map {g : α → β} (h : Gives s p fun a => R (g a)) : Gives s (g <$> p) R := by
  rw [map_eq_pure_bind]
  exact gives_bind (h.weaken fun _ _ => gives_pure)

theorem gives_ite {c : Prop} [Decidable c] {no : Parser α} (hy : c → Gives s p Q) (hn : ¬c → Gives s no Q) :
    Gives s (if c then p else no) Q := by
  split
  · exact hy ‹_›
  · exact hn ‹_›

theorem gives_unexpected {expected : String} : Gives s (unexpected expected : Parser α) Q :=
  fun _ _ h => nomatch h

theorem gives_observe {f : Matcher → α} {there : Matcher → Bool} (hthere : there s.scan = true)
    (h : Q (f s.scan) s) : Gives s (observe f there) Q := by
  rintro _ _ ⟨⟩
  change Q (f s.scan) { s with strayReads := s.strayReads + (!there s.scan).toNat }
  rw [hthere]
  exact h

/-! ### Rules -/

/-- A rule finds a token of the text, or finds that there is none. -/
theorem gives_eat {Q : Bool → ParserState → Prop} (hr : r.keepsOutOfMarkup)
    (hy : ∀ token found rest, s.scan.admits r → HasToken r s.rest token found rest →
      Q true (s.behind r rest token found))
    (hn : ∀ captures, (s.scan.admits r → Lacks r s.rest) →
      Q false (s.movedTo s.rest s.scan.token captures)) :
    Gives s (eat r) Q := by
  intro matched s' h
  have hskips (hadmits : s.scan.admits r) :=
    Rule.skips_of_keepsOutOfMarkup hr (Bool.and_eq_true_iff.1 hadmits).1
  unfold eat scan at h
  obtain ⟨m, he, hadmits, hp⟩ | ⟨m, he, captures, rfl⟩ | ⟨d, m, he, -⟩ := Scan.eat_cases r s.scan
  · rw [he] at h
    cases h
    have htoken := Scan.token_of_pattern (hskips hadmits).1 (hskips hadmits).2 hp
    rw [Scan.pattern_of_token (hskips hadmits).1 (hskips hadmits).2 htoken] at hp
    have hstate := hy _ _ _ hadmits htoken
    injection hp with _ hm
    rw [← hm]
    exact hstate
  · have hlacks (hadmits : s.scan.admits r) : Lacks r s.rest :=
      Scan.lacks_of_eat (hskips hadmits).1 (hskips hadmits).2 hadmits he
    rw [he] at h
    cases h
    exact hn captures hlacks
  · rw [he] at h
    cases h

theorem gives_ifEat {yes no : Parser α} (hr : r.keepsOutOfMarkup)
    (hy : ∀ token found rest, s.scan.admits r → HasToken r s.rest token found rest →
      Gives (s.behind r rest token found) yes Q)
    (hn : ∀ captures, (s.scan.admits r → Lacks r s.rest) →
      Gives (s.movedTo s.rest s.scan.token captures) no Q) :
    Gives s (eat r >>= fun matched => if matched then yes else no) Q :=
  gives_bind (gives_eat hr hy hn)

/-- The same behind a rule that has found nothing, which has left its captures at most. -/
theorem gives_ifEat_behind {yes no : Parser α} {captures : Captures} (hr : r.keepsOutOfMarkup)
    (hy : ∀ token found rest, s.scan.admits r → HasToken r s.rest token found rest →
      Gives (s.behind r rest token found) yes Q)
    (hn : ∀ captures, (s.scan.admits r → Lacks r s.rest) →
      Gives (s.movedTo s.rest s.scan.token captures) no Q) :
    Gives (s.movedTo s.rest s.scan.token captures) (eat r >>= fun matched => if matched then yes else no) Q :=
  gives_ifEat hr hy hn

theorem gives_expect {Q : Unit → ParserState → Prop} (hr : r.keepsOutOfMarkup)
    (h : ∀ token found rest, s.scan.admits r → HasToken r s.rest token found rest →
      Q () (s.behind r rest token found)) :
    Gives s (expect r) Q :=
  gives_bind (gives_eat hr (fun token found rest ha ht => gives_pure (h token found rest ha ht))
    fun _ _ => gives_unexpected)

/-! ### Loops -/

/-- A repetition gives what is closed under its rounds. -/
theorem gives_many {p : Parser (Option α)} {I : ParserState → Prop} {P : ParserState → List α → ParserState → Prop}
    (h : ∀ s, I s → Gives s p fun answer s₁ =>
      match answer with
      | none => P s [] s₁
      | some a => I s₁ ∧ ∀ as s₂, P s₁ as s₂ → P s (a :: as) s₂) (hs : I s) :
    Gives s (many p) (P s) := by
  have hwithin : ∀ n s, I s → Gives s (manyWithin p n) (P s) := by
    intro n
    induction n with
    | zero => exact fun _ _ _ _ h => nomatch h
    | succ n ih =>
      intro s hs
      refine (h s hs).bind ?_
      rintro (_ | a) s₁ hanswer
      · exact gives_pure hanswer
      · exact (ih s₁ hanswer.1).bind fun as s₂ has => gives_pure (hanswer.2 as s₂ has)
  exact fun as s' hp => hwithin s.steps s hs as s' hp

/-- An iteration gives what is closed under its rounds. -/
theorem gives_iterate {step : σ → Parser (σ ⊕ α)} {P : ParserState → σ → α → ParserState → Prop}
    (h : ∀ s a, Gives s (step a) fun answer s₁ =>
      match answer with
      | .inl next => ∀ b s₂, P s₁ next b s₂ → P s a b s₂
      | .inr result => P s a result s₁) (init : σ) :
    Gives s (iterate step init) (P s init) := by
  have hwithin : ∀ n s a, Gives s (iterateWithin step n a) (P s a) := by
    intro n
    induction n with
    | zero => exact fun _ _ _ _ h => nomatch h
    | succ n ih =>
      intro s a
      refine (h s a).bind ?_
      rintro (next | result) s₁ hanswer
      · exact (ih s₁ next).weaken hanswer
      · exact gives_pure hanswer
  exact fun b s' hp => hwithin s.steps s init b s' hp

/-- The value of the first rule that matches, of rules that may all stand here. -/
theorem gives_eatFirst (table : List (Rule × α)) {Q : Option α → ParserState → Prop}
    (hr : ∀ entry ∈ table, entry.1.keepsOutOfMarkup)
    (hy : ∀ r a token found rest, (r, a) ∈ table → s.scan.admits r → HasToken r s.rest token found rest →
      Q (some a) (s.behind r rest token found))
    (hn : ∀ captures, (∀ entry ∈ table, s.scan.admits entry.1 → Lacks entry.1 s.rest) →
      Q none (s.movedTo s.rest s.scan.token captures)) :
    Gives s (eatFirst table) Q := by
  suffices hall : ∀ captures, Gives (s.movedTo s.rest s.scan.token captures) (eatFirst table) Q from
    hall s.scan.captures
  induction table with
  | nil => exact fun captures => gives_pure (hn captures fun _ h => nomatch h)
  | cons entry table ih =>
    obtain ⟨r, a⟩ := entry
    rw [List.forall_mem_cons] at hr
    refine fun captures => gives_ifEat hr.1 ?_ fun captures' hlacks => ?_
    · intro token found rest hadmits htoken
      exact gives_pure (hy r a token found rest List.mem_cons_self hadmits htoken)
    · refine ih hr.2 (fun r' a' token found rest hmem => hy r' a' token found rest (List.mem_cons_of_mem _ hmem))
        (fun captures hall => hn captures ?_) captures'
      exact List.forall_mem_cons.2 ⟨hlacks, hall⟩

end Parser

end XQuerySyntax
