import XQuerySyntax.Grammar.Parser
import XQuerySyntax.Proofs.Captures.Match
import XQuerySyntax.Proofs.Contract
import XQuerySyntax.Proofs.Rollback

/-! Parsers that read only what is there. A parser may read the captures of a match that it has made itself,
or, if it is told so, those of the match in front of it. Any other match replaces the captures, so what may
still be read is known from the last match alone. -/

namespace XQuerySyntax.Parser

variable {α β σ τ : Type}

/-- However the step ends, the count is as before. -/
def Steady (count : τ → Nat) (p : EStateM Stop τ α) : Prop := ∀ s, count (p s).state = count s

/-- Wherever the parser begins, it reads no capture that is not there. -/
abbrev Supplied (p : Parser α) : Prop := Steady ParserState.strayReads p

/-- Behind a match that has captured lexemes of these kinds, the parser reads no capture that is not there. -/
def SuppliedBy (kinds : List Placeholder) (p : Parser α) : Prop :=
  ∀ s, s.scan.captures.map Capture.kind = kinds → (p s).state.strayReads = s.strayReads

/-- The parser neither reads nor replaces the captures of the last match. -/
def Spares (p : Parser α) : Prop :=
  ∀ s, (p s).state.strayReads = s.strayReads ∧ (p s).state.scan.captures = s.scan.captures

/-! ### Composition -/

section

variable {count : τ → Nat} {p : EStateM Stop τ α} {next : α → EStateM Stop τ β}

theorem supplied_pure (a : α) : Steady count (pure a : EStateM Stop τ α) := fun _ => rfl

/-- What the parser leaves alone, and what follows leaves alone, is left alone by both. -/
theorem count_bind {s : τ} (hp : count (p s).state = count s)
    (hn : ∀ a s₁, p s = .ok a s₁ → count (next a s₁).state = count s₁) :
    count ((p >>= next) s).state = count s := by
  cases hr : p s with
  | ok a s₁ =>
    rw [hr] at hp
    rw [bind_of_ok hr]
    exact (hn a s₁ hr).trans hp
  | error e s₁ =>
    rw [hr] at hp
    rw [bind_of_error hr]
    exact hp

theorem Steady.seq (h : Steady count p) (hn : ∀ a, Steady count (next a)) : Steady count (p >>= next) :=
  fun s => count_bind (h s) fun a s₁ _ => hn a s₁

theorem Steady.some (h : Steady count p) : Steady count (do return some (← p)) :=
  h.seq fun _ => supplied_pure _

theorem supplied_map (f : α → β) (h : Steady count p) : Steady count (f <$> p) := by
  rw [map_eq_pure_bind]
  exact h.seq fun _ => supplied_pure _

theorem supplied_ite {c : Prop} [Decidable c] {no : EStateM Stop τ α} (hy : Steady count p)
    (hn : Steady count no) : Steady count (if c then p else no) := by
  split
  · exact hy
  · exact hn

theorem supplied_forIn {body : α → EStateM Stop τ PUnit} (h : ∀ x, Steady count (body x)) (xs : List α) :
    Steady count (forIn xs PUnit.unit fun x _ => do
      body x
      return ForInStep.yield PUnit.unit) := by
  induction xs with
  | nil => exact supplied_pure _
  | cons x xs ih =>
    rw [List.forIn_cons, bind_assoc]
    exact (h x).seq fun _ => ih

theorem supplied_get : Steady count (get : EStateM Stop τ τ) := fun _ => rfl

end

section

variable {kinds : List Placeholder} {kind : Placeholder} {i : Nat} {p no : Parser α} {next : α → Parser β}

/-- A parser that needs no captures may have some in front of it. -/
theorem Steady.behind (h : Supplied p) : SuppliedBy kinds p := fun s _ => h s

theorem SuppliedBy.seq (h : SuppliedBy kinds p) (hn : ∀ a, Supplied (next a)) : SuppliedBy kinds (p >>= next) :=
  fun s hs => count_bind (h s hs) fun a s₁ _ => hn a s₁

theorem SuppliedBy.some (h : SuppliedBy kinds p) : SuppliedBy kinds (do return some (← p)) :=
  h.seq fun _ => supplied_pure _

/-- What is spared can be read further on. -/
theorem Spares.bind (h : Spares p) (hn : ∀ a, SuppliedBy kinds (next a)) : SuppliedBy kinds (p >>= next) := by
  refine fun s hs => count_bind (h s).1 fun a s₁ hr => hn a s₁ ?_
  have hcaptures := (h s).2
  rw [hr] at hcaptures
  exact (congrArg _ hcaptures).trans hs

/-! ### Captures -/

/-- A reading of what is there changes nothing at all. -/
theorem observe_of_kinds {f : Matcher → α} (h : kinds[i]? = some kind) {s : ParserState}
    (hs : s.scan.captures.map Capture.kind = kinds) :
    observe f (fun m => m.captures.has kind i) s = .ok (f s.scan) s := by
  change EStateM.Result.ok (f s.scan)
    { s with strayReads := s.strayReads + (!s.scan.captures.has kind i).toNat } = _
  -- Nothing is added to the count.
  rw [Captures.has_of_kinds (hs ▸ h)]
  rfl

theorem suppliedBy_captured {f : Matcher → α} (h : kinds[i]? = some kind) :
    SuppliedBy kinds (observe f fun m => m.captures.has kind i) := by
  intro s hs
  rw [observe_of_kinds h hs]
  rfl

/-- A capture is read, and the others are still there. -/
theorem suppliedBy_read {f : Matcher → α} (h : kinds[i]? = some kind)
    (hn : ∀ a, SuppliedBy kinds (next a)) :
    SuppliedBy kinds (observe f (fun m => m.captures.has kind i) >>= next) := by
  intro s hs
  rw [bind_of_ok (observe_of_kinds h hs)]
  exact hn _ s hs

end

/-! ### Steps without captures -/

section

variable {p : Parser α}

theorem spares_get : Spares (get : Parser ParserState) := fun _ => ⟨rfl, rfl⟩

theorem spares_start : Spares start := fun _ => ⟨rfl, rfl⟩

theorem supplied_observe (f : Matcher → α) : Supplied (observe f fun _ => true) := fun _ => rfl

theorem supplied_consult (f : StaticContext → α) : Supplied (consult f) := fun _ => rfl

theorem supplied_amend (f : StaticContext → StaticContext) : Supplied (amend f) := fun _ => rfl

theorem supplied_amendGet (f : StaticContext → α × StaticContext) : Supplied (amendGet f) := fun _ => rfl

theorem supplied_record (code : ErrorCode) (offset : Nat) (message : String) :
    Supplied (record code offset message) := fun _ => rfl

theorem supplied_warn (code : ErrorCode) (offset : Nat) (message : String) :
    Supplied (warn code offset message) := fun _ => rfl

theorem supplied_node (kind : ExprKind Expr) (offset : Nat) : Supplied (node kind offset) := fun _ => rfl

theorem supplied_goto (state : LexicalState) : Supplied (goto state) := fun _ => rfl

theorem supplied_mark : Supplied mark := supplied_observe _

theorem supplied_restore (place : Matcher.Mark) : Supplied (restore place) := fun _ => rfl

theorem supplied_fatal (code : ErrorCode) (offset : Nat) (message : String) :
    Supplied (fatal code offset message : Parser α) := fun _ => rfl

theorem supplied_exhausted : Supplied (exhausted : Parser α) := fun _ => rfl

theorem supplied_unexpected (expected : String) : Supplied (unexpected expected : Parser α) :=
  (supplied_observe id).seq fun _ => supplied_fatal _ _ _

/-- Behind an unexpected character nothing follows. -/
theorem supplied_unexpected_bind {expected : String} {next : α → Parser β} :
    Supplied (unexpected expected >>= next) := fun _ => rfl

theorem supplied_steps (next : Nat → Parser α) (h : ∀ steps, Supplied (next steps)) :
    Supplied (do next (← get).steps) := supplied_get.seq fun s => h s.steps

theorem supplied_nested (h : Supplied p) : Supplied (nested p) := by
  refine Steady.seq (fun _ => rfl) fun _ => supplied_get.seq fun s => supplied_ite ?_ ?_
  · exact (supplied_fatal _ _ _).seq fun _ => h.seq fun _ => Steady.seq (fun _ => rfl) fun _ => supplied_pure _
  · exact h.seq fun _ => Steady.seq (fun _ => rfl) fun _ => supplied_pure _

end

/-! ### Rules -/

section

variable {r : Rule} {p yes no : Parser α} {next : Unit → Parser α}

theorem supplied_scan (step : Scan α) : Supplied (scan step) := by
  intro s
  unfold scan
  cases step s.scan <;> rfl

theorem supplied_eat (r : Rule) : Supplied (eat r) := supplied_scan _

theorem supplied_peek (r : Rule) : Supplied (peek r) := supplied_scan _

theorem supplied_lexeme (scanner : List Char → Scanned α) : Supplied (lexeme scanner) := supplied_scan _

theorem supplied_atEnd : Supplied atEnd := supplied_scan _

/-- A rule that may match: behind a match its captures are there. -/
structure Tests (r : Rule) (test : Parser Bool) : Prop where
  supplied : Supplied test
  kinds : ∀ s s', test s = .ok true s' → s'.scan.captures.map Capture.kind = capturedKinds r.items

theorem tests_scan {step : Scan Bool}
    (h : ∀ m m₁, step m = .ok true m₁ → m₁.captures.map Capture.kind = capturedKinds r.items) :
    Tests r (scan step) := by
  refine ⟨supplied_scan step, fun s s' hs => ?_⟩
  unfold scan at hs
  cases hm : step s.scan with
  | ok matched m₁ =>
    rw [hm] at hs
    cases hs
    exact h _ _ hm
  | error d m₁ =>
    rw [hm] at hs
    cases hs

theorem tests_eat (r : Rule) : Tests r (eat r) := tests_scan fun _ _ => Scan.kinds_of_eat

theorem tests_peek (r : Rule) : Tests r (peek r) := tests_scan fun _ _ => Scan.kinds_of_peek

/-- What follows a test: behind a match the captures of the rule are there, and else nothing is known. -/
theorem Tests.bind {test : Parser Bool} {next : Bool → Parser α} (h : Tests r test)
    (hy : SuppliedBy (capturedKinds r.items) (next true)) (hn : Supplied (next false)) :
    Supplied (test >>= next) := by
  refine fun s => count_bind (h.supplied s) fun matched s₁ hr => ?_
  cases matched with
  | true => exact hy s₁ (h.kinds s s₁ hr)
  | false => exact hn s₁

theorem supplied_ifCaptures (hy : SuppliedBy (capturedKinds r.items) yes) (hn : Supplied no) :
    Supplied (eat r >>= fun matched => if matched then yes else no) := (tests_eat r).bind hy hn

theorem supplied_unlessCaptures (hn : Supplied no) (hy : SuppliedBy (capturedKinds r.items) yes) :
    Supplied (eat r >>= fun matched => if !matched then no else yes) := (tests_eat r).bind hy hn

theorem supplied_ifEat (hy : Supplied yes) (hn : Supplied no) :
    Supplied (eat r >>= fun matched => if matched then yes else no) := supplied_ifCaptures hy.behind hn

theorem supplied_ifPeek (hy : Supplied yes) (hn : Supplied no) :
    Supplied (peek r >>= fun matched => if matched then yes else no) := (tests_peek r).bind hy.behind hn

theorem supplied_expectCaptures (hn : SuppliedBy (capturedKinds r.items) (next ())) :
    Supplied (expect r >>= next) := by
  simp only [expect, bind_assoc]
  exact (tests_eat r).bind hn supplied_unexpected_bind

theorem supplied_expect (r : Rule) : Supplied (expect r) :=
  (supplied_eat r).seq fun _ => supplied_ite (supplied_unexpected _) (supplied_pure ())

theorem supplied_whenCaptures (h : SuppliedBy (capturedKinds r.items) p) : Supplied (whenEats r p) :=
  supplied_ifCaptures (h.seq fun _ => supplied_pure _) (supplied_pure none)

theorem supplied_whenEats (h : Supplied p) : Supplied (whenEats r p) := supplied_whenCaptures h.behind

theorem supplied_eatFirst (table : List (Rule × α)) : Supplied (eatFirst table) := by
  induction table with
  | nil => exact supplied_pure none
  | cons entry rest ih => exact supplied_ifEat (supplied_pure _) ih

end

/-! ### Loops -/

section

variable {r : Rule}

theorem supplied_many {p : Parser (Option α)} (h : Supplied p) : Supplied (many p) := by
  refine supplied_steps (manyWithin p) fun steps => ?_
  induction steps with
  | zero => exact supplied_exhausted
  | succ steps ih =>
    refine h.seq ?_
    rintro (_ | a)
    · exact supplied_pure []
    · exact ih.seq fun _ => supplied_pure _

theorem supplied_separatedBy {p : Parser α} (h : Supplied p) : Supplied (separatedBy r p) :=
  h.seq fun _ => (supplied_many (supplied_whenEats h)).seq fun _ => supplied_pure _

theorem supplied_iterate {step : σ → Parser (σ ⊕ α)} (h : ∀ a, Supplied (step a)) (init : σ) :
    Supplied (iterate step init) := by
  refine supplied_steps (iterateWithin step · init) fun steps => ?_
  induction steps generalizing init with
  | zero => exact supplied_exhausted
  | succ steps ih =>
    refine (h init).seq ?_
    rintro (next | result)
    · exact ih next
    · exact supplied_pure result

end

end XQuerySyntax.Parser
