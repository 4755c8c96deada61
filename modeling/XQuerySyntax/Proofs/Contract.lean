import XQuerySyntax.Grammar.Parser

/-! Contracts. Begun in a state of one kind, a step ends in a state that fits its answer, or stops in
a state that fits its error. Contracts of steps that follow one another are put together here, whatever
the states are. -/

namespace XQuerySyntax

variable {ε τ α β : Type}

theorem bind_of_ok {p : EStateM ε τ α} {next : α → EStateM ε τ β} {a : α} {s s₁ : τ} (h : p s = .ok a s₁) :
    (p >>= next) s = next a s₁ := by
  change EStateM.bind p next s = _
  unfold EStateM.bind
  rw [h]

theorem bind_of_error {p : EStateM ε τ α} {next : α → EStateM ε τ β} {e : ε} {s s₁ : τ} (h : p s = .error e s₁) :
    (p >>= next) s = .error e s₁ := by
  change EStateM.bind p next s = _
  unfold EStateM.bind
  rw [h]

theorem of_bind_ok {p : EStateM ε τ α} {next : α → EStateM ε τ β} {b : β} {s s₂ : τ}
    (h : (p >>= next) s = .ok b s₂) : ∃ a s₁, p s = .ok a s₁ ∧ next a s₁ = .ok b s₂ := by
  change EStateM.bind p next s = .ok b s₂ at h
  unfold EStateM.bind at h
  cases hp : p s with
  | error e s₁ =>
    rw [hp] at h
    cases h
  | ok a s₁ =>
    rw [hp] at h
    exact ⟨a, s₁, rfl, h⟩

/-- The step ended with an answer and a state of `post`, or stopped with an error and a state of
`fail`. -/
def Ends (post : α → τ → Prop) (fail : ε → τ → Prop) : EStateM.Result ε τ α → Prop
  | .ok a s => post a s
  | .error e s => fail e s

/-- Begun in a state of `pre`, the step ends with an answer and a state of `post`, or stops with an
error and a state of `fail`. -/
def Contract (pre : τ → Prop) (p : EStateM ε τ α) (post : α → τ → Prop) (fail : ε → τ → Prop) :
    Prop :=
  ∀ s, pre s → Ends post fail (p s)

namespace Contract

variable {pre pre' : τ → Prop} {p : EStateM ε τ α} {next : α → EStateM ε τ β}
  {post post' : α → τ → Prop} {later : β → τ → Prop} {fail : ε → τ → Prop}

theorem of_ok (h : Contract pre p post fail) {s s' : τ} {a : α} (hs : pre s) (hp : p s = .ok a s') :
    post a s' := by
  have := h s hs
  rwa [hp] at this

theorem of_error (h : Contract pre p post fail) {s s' : τ} {e : ε} (hs : pre s)
    (hp : p s = .error e s') : fail e s' := by
  have := h s hs
  rwa [hp] at this

theorem pure {a : α} (h : ∀ s, pre s → post a s) :
    Contract pre (Pure.pure a : EStateM ε τ α) post fail := h

theorem throw {e : ε} (h : ∀ s, pre s → fail e s) :
    Contract pre (MonadExcept.throw e : EStateM ε τ α) post fail := h

theorem bind (h : Contract pre p post fail) (hn : ∀ a, Contract (post a) (next a) later fail) :
    Contract pre (p >>= next) later fail := by
  intro s hs
  have hp := h s hs
  change Ends later fail (EStateM.bind p next s)
  unfold EStateM.bind
  cases hr : p s with
  | ok a s' =>
    rw [hr] at hp
    exact hn a s' hp
  | error e s' =>
    rw [hr] at hp
    exact hp

theorem and {pre' : τ → Prop} {post' : α → τ → Prop} {fail' : ε → τ → Prop} (h : Contract pre p post fail)
    (h' : Contract pre' p post' fail') :
    Contract (fun s => pre s ∧ pre' s) p (fun a s => post a s ∧ post' a s) fun e s => fail e s ∧ fail' e s := by
  intro s hs
  have hp := h s hs.1
  have hp' := h' s hs.2
  cases hr : p s <;> rw [hr] at hp hp' <;> exact ⟨hp, hp'⟩

theorem any (pre : τ → Prop) (p : EStateM ε τ α) : Contract pre p (fun _ _ => True) fun _ _ => True := by
  intro s _
  cases p s <;> trivial

theorem map (f : α → β) (h : Contract pre p (fun a => later (f a)) fail) :
    Contract pre (f <$> p) later fail := by
  intro s hs
  have hp := h s hs
  change Ends later fail (EStateM.map f p s)
  unfold EStateM.map
  cases hr : p s <;> rw [hr] at hp <;> exact hp

theorem weaken (h : Contract pre p post fail) (hpre : ∀ s, pre' s → pre s)
    (hpost : ∀ a s, post a s → post' a s) : Contract pre' p post' fail := by
  intro s hs
  have hp := h s (hpre s hs)
  cases hr : p s with
  | ok a s' =>
    rw [hr] at hp
    exact hpost a s' hp
  | error e s' =>
    rw [hr] at hp
    exact hp

theorem ite {c : Prop} [Decidable c] {no : EStateM ε τ α} (hy : c → Contract pre p post fail)
    (hn : ¬c → Contract pre no post fail) : Contract pre (if c then p else no) post fail := by
  split
  · exact hy ‹_›
  · exact hn ‹_›

/-- A loop over a list keeps what each of its rounds keeps. -/
theorem forIn {inv : τ → Prop} {body : α → EStateM ε τ PUnit}
    (h : ∀ x, Contract inv (body x) (fun _ => inv) fail) (xs : List α) :
    Contract inv (ForIn.forIn xs PUnit.unit fun x _ => do
      body x
      return ForInStep.yield PUnit.unit) (fun _ => inv) fail := by
  induction xs with
  | nil => exact fun _ hs => hs
  | cons x xs ih =>
    rw [List.forIn_cons, bind_assoc]
    exact (h x).bind fun _ => ih

end Contract

end XQuerySyntax
