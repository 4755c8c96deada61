import XQuerySyntax.Grammar.Module
import XQuerySyntax.Proofs.Rollback

/-! The lexical states that a parser goes through. A parser leads from one stack of states to another
that depends on its answer alone; parsers that follow one another lead from stack to stack, and none
of them comes back from a state that nobody saved. -/

namespace XQuerySyntax

/-- States of parsing, in which a matcher stands somewhere in a text. -/
class Scanning (τ : Type) where
  matcher : τ → Matcher

instance : Scanning ParserState := ⟨ParserState.scan⟩

instance {τ σ : Type} [Scanning τ] : Scanning (τ × σ) := ⟨fun s => Scanning.matcher s.1⟩

namespace Parser

open Scanning

variable {τ α β σ : Type} [Scanning τ]

/-- From the stack `k`, the parser makes no stray pop however it ends, and what it answers fits the
stack that it answers on. -/
def Course (k : StateStack) (p : EStateM Stop τ α) (after : α → StateStack → Prop) : Prop :=
  ∀ s, (matcher s).stack = k →
    (matcher (p s).state).strayPops = (matcher s).strayPops ∧
      ∀ a s', p s = .ok a s' → after a (matcher s').stack

/-- From the stack `k`, the parser gets to a stack that its answer determines. -/
def Leads (k : StateStack) (p : EStateM Stop τ α) (target : α → StateStack) : Prop :=
  Course k p fun a k' => k' = target a

/-- The parser ends on the stack on which it began. -/
def Keeps (p : EStateM Stop τ α) : Prop :=
  ∀ k, Leads k p fun _ => k

/-- The parser ends with the saved states with which it began. -/
def Level (p : EStateM Stop τ α) : Prop :=
  ∀ k, Course k p fun _ k' => k'.saved = k.saved

/-- The parser begins before an operand and ends behind one. -/
def Operand (p : EStateM Stop τ α) : Prop :=
  ∀ saved, Leads ⟨.expression, saved⟩ p fun _ => ⟨.operator, saved⟩

/-- The parser begins before an operand, and ends behind one or else where it began. -/
def OptionalOperand (p : EStateM Stop τ (Option α)) : Prop :=
  ∀ saved, Leads ⟨.expression, saved⟩ p fun found =>
    found.elim ⟨.expression, saved⟩ fun _ => ⟨.operator, saved⟩

/-- The parser begins and ends behind an operand. -/
def Suffix (p : EStateM Stop τ α) : Prop :=
  ∀ saved, Leads ⟨.operator, saved⟩ p fun _ => ⟨.operator, saved⟩

/-! ### Composition -/

section

variable {k k' : StateStack} {p : EStateM Stop τ α} {next : α → EStateM Stop τ β}
  {after : α → StateStack → Prop} {later : β → StateStack → Prop} {target : α → StateStack}
  {goal : β → StateStack}

theorem course_pure {a : α} (h : after a k) : Course k (pure a : EStateM Stop τ α) after := by
  rintro s rfl
  refine ⟨rfl, ?_⟩
  rintro _ _ ⟨⟩
  exact h

theorem course_throw (e : Stop) : Course k (throw e : EStateM Stop τ α) after :=
  fun _ _ => ⟨rfl, fun _ _ h => nomatch h⟩

theorem course_bind (h : Course k p after) (hn : ∀ a k', after a k' → Course k' (next a) later) :
    Course k (p >>= next) later := by
  intro s hs
  obtain ⟨hpops, hafter⟩ := h s hs
  change (matcher (EStateM.bind p next s).state).strayPops = _ ∧
    ∀ b s', EStateM.bind p next s = .ok b s' → _
  unfold EStateM.bind
  cases hp : p s with
  | error e s₁ =>
    rw [hp] at hpops
    exact ⟨hpops, fun _ _ h => nomatch h⟩
  | ok a s₁ =>
    rw [hp] at hpops
    obtain ⟨hpops', hlater⟩ := hn a _ (hafter a s₁ hp) s₁ rfl
    exact ⟨hpops'.trans hpops, hlater⟩

theorem course_weaken {other : α → StateStack → Prop} (h : Course k p after)
    (hi : ∀ a k', after a k' → other a k') : Course k p other := fun s hs =>
  ⟨(h s hs).1, fun a s' hp => hi a _ ((h s hs).2 a s' hp)⟩

theorem course_ite {c : Prop} [Decidable c] {no : EStateM Stop τ α} (hy : c → Course k p after)
    (hn : ¬c → Course k no after) : Course k (if c then p else no) after := by
  split
  · exact hy ‹_›
  · exact hn ‹_›

theorem leads_pure {a : α} (h : k = target a) : Leads k (pure a : EStateM Stop τ α) target :=
  course_pure h

theorem leads_bind (h : Leads k p target) (hn : ∀ a, Leads (target a) (next a) goal) :
    Leads k (p >>= next) goal :=
  course_bind h (by rintro a _ rfl; exact hn a)

theorem leads_map (f : α → β) (h : Leads k p fun a => goal (f a)) : Leads k (f <$> p) goal := by
  intro s hs
  obtain ⟨hpops, hafter⟩ := h s hs
  change (matcher (EStateM.map f p s).state).strayPops = _ ∧
    ∀ b s', EStateM.map f p s = .ok b s' → _
  unfold EStateM.map
  cases hp : p s with
  | error e s₁ =>
    rw [hp] at hpops
    exact ⟨hpops, fun _ _ h => nomatch h⟩
  | ok a s₁ =>
    rw [hp] at hpops
    refine ⟨hpops, ?_⟩
    rintro _ _ ⟨⟩
    exact hafter a s₁ hp

/-- A step that only reads, or changes nothing that scanning depends on, may be passed over. -/
theorem Keeps.bind (h : Keeps p) (hn : ∀ a, Leads k (next a) goal) : Leads k (p >>= next) goal :=
  leads_bind (h k) hn

theorem Keeps.course_bind (h : Keeps p) (hn : ∀ a, Course k (next a) later) :
    Course k (p >>= next) later :=
  Parser.course_bind (h k) (by rintro a _ rfl; exact hn a)

theorem Level.bind (h : Level p) (hn : ∀ a, Level (next a)) : Level (p >>= next) :=
  fun k => Parser.course_bind (h k) fun a k' hk =>
    course_weaken (hn a k') fun _ _ hk' => hk'.trans hk

theorem Keeps.level (h : Keeps p) : Level p :=
  fun k => course_weaken (h k) fun _ _ hk => congrArg StateStack.saved hk

theorem keeps_pure (a : α) : Keeps (pure a : EStateM Stop τ α) := fun _ => leads_pure rfl

theorem Keeps.seq (h : Keeps p) (hn : ∀ a, Keeps (next a)) : Keeps (p >>= next) :=
  fun k => leads_bind (h k) fun a => hn a k

theorem keeps_ite {no : EStateM Stop τ α} {c : Prop} [Decidable c] (hy : Keeps p)
    (hn : Keeps no) :
    Keeps (if c then p else no) :=
  fun k => course_ite (fun _ => hy k) fun _ => hn k

theorem keeps_forIn {body : α → EStateM Stop τ PUnit} (h : ∀ x, Keeps (body x)) (xs : List α) :
    Keeps (forIn xs PUnit.unit fun x _ => do
      body x
      return ForInStep.yield PUnit.unit) := by
  induction xs with
  | nil => exact keeps_pure _
  | cons x xs ih =>
    rw [List.forIn_cons, bind_assoc]
    exact (h x).seq fun _ => ih

end

/-! ### Reading and recording -/

theorem keeps_get : Keeps (get : EStateM Stop τ τ) := by
  rintro _ s rfl
  refine ⟨rfl, ?_⟩
  rintro _ _ ⟨⟩
  rfl

/-- A change of what does not belong to scanning. -/
theorem keeps_modifyGet {f : τ → α × τ} (h : ∀ s, matcher (f s).2 = matcher s) :
    Keeps (modifyGet f : EStateM Stop τ α) := by
  rintro _ s rfl
  refine ⟨congrArg Matcher.strayPops (h s), ?_⟩
  rintro _ _ ⟨⟩
  exact congrArg Matcher.stack (h s)

theorem keeps_modify {f : τ → τ} (h : ∀ s, matcher (f s) = matcher s) :
    Keeps (modify f : EStateM Stop τ PUnit) :=
  keeps_modifyGet h

theorem keeps_observe (f : Matcher → α) {there : Matcher → Bool} : Keeps (observe f there) := by
  rintro _ s rfl
  refine ⟨rfl, ?_⟩
  rintro _ _ ⟨⟩
  rfl

theorem keeps_start : Keeps start := keeps_observe _

theorem keeps_nextOffset : Keeps nextOffset := keeps_observe _

theorem keeps_capturedName (i : Nat) : Keeps (capturedName i) := keeps_observe _

theorem keeps_capturedQualifiedName (i : Nat) : Keeps (capturedQualifiedName i) := keeps_observe _

theorem keeps_capturedString (i : Nat) : Keeps (capturedString i) := keeps_observe _

theorem keeps_capturedNumber? (i : Nat) : Keeps (capturedNumber? i) := keeps_observe _

theorem keeps_consult (f : StaticContext → α) : Keeps (consult f) :=
  keeps_get.seq fun _ => keeps_pure _

theorem keeps_amend (f : StaticContext → StaticContext) : Keeps (amend f) :=
  keeps_modify fun _ => rfl

theorem keeps_amendGet (f : StaticContext → α × StaticContext) : Keeps (amendGet f) :=
  keeps_modifyGet fun _ => rfl

theorem keeps_record (code : ErrorCode) (offset : Nat) (message : String) :
    Keeps (record code offset message) :=
  keeps_modify fun _ => rfl

theorem keeps_warn (code : ErrorCode) (offset : Nat) (message : String) :
    Keeps (warn code offset message) :=
  keeps_modify fun _ => rfl

theorem keeps_node (kind : ExprKind Expr) (offset : Nat) : Keeps (node kind offset) :=
  keeps_get.seq fun _ => keeps_pure _

section

variable {k : StateStack} {after : α → StateStack → Prop}

theorem course_fatal (code : ErrorCode) (offset : Nat) (message : String) :
    Course k (fatal code offset message : Parser α) after :=
  course_throw _

theorem course_unexpected (expected : String) : Course k (unexpected expected : Parser α) after :=
  (keeps_observe id).course_bind fun _ => course_fatal _ _ _

theorem course_exhausted : Course k (exhausted : Parser α) after := course_throw _

end

/-! ### Scanning -/

section

variable {k k' : StateStack} {r : Rule} {p : Parser α} {next : α → Parser β}
  {after : α → StateStack → Prop} {later : β → StateStack → Prop} {target : α → StateStack}
  {goal : β → StateStack}

theorem course_scan {step : Scan α} (h : ∀ m : Matcher, m.stack = k →
    (step m).state.strayPops = m.strayPops ∧ ∀ a m', step m = .ok a m' → after a m'.stack) :
    Course k (scan step) after := by
  intro s hs
  have hm := h s.scan hs
  unfold scan
  cases hr : step s.scan with
  | error d m =>
    rw [hr] at hm
    exact ⟨hm.1, fun _ _ h => nomatch h⟩
  | ok a m =>
    rw [hr] at hm
    refine ⟨hm.1, ?_⟩
    rintro _ _ ⟨⟩
    exact hm.2 a m rfl

/-- What a matched rule does to the stack is its state change, which must find something saved if it
comes back. -/
theorem leads_eat (h : k.isStray r.next = false) :
    Leads k (eat r) fun matched => bif matched then k.apply r.next else k := by
  refine course_scan fun m hk => ?_
  subst hk
  obtain ⟨m', he, _, hp⟩ | ⟨_, he, captures, rfl⟩ | ⟨d, _, he, captures, rfl⟩ := Scan.eat_cases r m
  · have hm := Scan.pattern_settles r.items m
    rw [hp] at hm
    obtain ⟨rest, token, captures, rfl⟩ := hm
    rw [he]
    refine ⟨?_, ?_⟩
    · change m.strayPops + (m.stack.isStray r.next).toNat = m.strayPops
      rw [h]
      rfl
    · rintro _ _ ⟨⟩
      rfl
  · rw [he]
    refine ⟨rfl, ?_⟩
    rintro _ _ ⟨⟩
    rfl
  · rw [he]
    exact ⟨rfl, fun _ _ h => nomatch h⟩

theorem keeps_peek (r : Rule) : Keeps (peek r) := by
  refine fun k => course_scan fun m hk => ?_
  obtain ⟨_, token, captures, hm⟩ := Scan.peek_cases r m
  cases hr : Scan.peek r m with
  | ok a m' =>
    rw [hr] at hm
    obtain rfl : m' = _ := hm
    refine ⟨rfl, ?_⟩
    rintro _ _ ⟨⟩
    exact hk
  | error d m' =>
    rw [hr] at hm
    obtain rfl : m' = _ := hm
    exact ⟨rfl, fun _ _ h => nomatch h⟩

/-- A scanner of text that no rule describes moves the position alone. -/
theorem keeps_lexeme (scanner : List Char → Scanned α) : Keeps (lexeme scanner) := by
  refine fun k => course_scan fun m hk => ?_
  have hm := Scan.moves_lexeme scanner m
  cases hr : Scan.lexeme scanner m with
  | ok a m' =>
    rw [hr] at hm
    rw [show m' = _ from hm]
    refine ⟨rfl, ?_⟩
    rintro _ _ ⟨⟩
    exact hk
  | error d m' =>
    rw [hr] at hm
    rw [show m' = _ from hm]
    exact ⟨rfl, fun _ _ h => nomatch h⟩

theorem keeps_atEnd : Keeps atEnd := by
  refine fun k => course_scan fun m hk => ?_
  have hm := Scan.moves_lexeme (scanTrivia true) m
  unfold Scan.atEnd
  cases hr : Scan.lexeme (scanTrivia true) m with
  | ok a m' =>
    rw [hr] at hm
    rw [show m' = _ from hm]
    refine ⟨rfl, ?_⟩
    rintro _ _ ⟨⟩
    exact hk
  | error d m' =>
    rw [hr] at hm
    rw [show m' = _ from hm]
    exact ⟨rfl, fun _ _ h => nomatch h⟩

theorem leads_goto (state : LexicalState) : Leads k (goto state) fun _ => k.goto state := by
  rintro s rfl
  refine ⟨rfl, ?_⟩
  rintro _ _ ⟨⟩
  rfl

/-- A mark remembers the stack, so coming back to it restores the stack. -/
theorem course_mark {next : Matcher.Mark → Parser β}
    (hn : ∀ place, place.stack = k → Course k (next place) later) :
    Course k (mark >>= next) later := by
  intro s hs
  exact hn s.scan.mark hs s hs

theorem leads_restore {place : Matcher.Mark} (h : place.stack = k') :
    Leads k (restore place) fun _ => k' := by
  rintro s rfl
  refine ⟨rfl, ?_⟩
  rintro _ _ ⟨⟩
  exact h

/-! ### Rules in a production -/

/-- A production that goes one way if a rule matches and another way if it does not. -/
theorem course_ifEat {yes no : Parser α} (h : k.isStray r.next = false)
    (hy : Course (k.apply r.next) yes after) (hn : Course k no after) :
    Course k (eat r >>= fun matched => if matched then yes else no) after := by
  refine course_bind (leads_eat h) ?_
  rintro (_ | _) _ rfl
  · exact hn
  · exact hy

theorem leads_expect (h : k.isStray r.next = false) :
    Leads k (expect r) fun _ => k.apply r.next := by
  refine leads_bind (leads_eat h) ?_
  rintro (_ | _)
  · exact course_unexpected _
  · exact leads_pure rfl

theorem leads_whenEats (h : k.isStray r.next = false)
    (hp : Leads (k.apply r.next) p fun _ => k') :
    Leads k (whenEats r p) fun found => found.elim k fun _ => k' :=
  course_ifEat h (leads_bind hp fun _ => leads_pure rfl) (leads_pure rfl)

/-- An optional part that ends where it began. -/
theorem leads_whenEats_back (h : k.isStray r.next = false)
    (hp : Leads (k.apply r.next) p fun _ => k) : Leads k (whenEats r p) fun _ => k :=
  course_ifEat h (leads_bind hp fun _ => leads_pure rfl) (leads_pure rfl)

/-- Behind a parser that always stops anything may stand. -/
theorem course_bind_stop (h : Course k p fun _ _ => False) : Course k (p >>= next) later :=
  course_bind h fun _ _ h => h.elim

theorem course_nested (h : Course k p after) : Course k (nested p) after := by
  refine Keeps.course_bind (keeps_modify fun _ => rfl) fun _ => ?_
  refine keeps_get.course_bind fun s => ?_
  have hp : Course k (p >>= fun a => do
      modify fun s => { s with depth := s.depth - 1 }
      return a) after := by
    refine course_bind h fun a k' ha => ?_
    refine Keeps.course_bind (keeps_modify fun _ => rfl) fun _ => ?_
    exact course_pure ha
  refine course_ite (fun _ => ?_) (fun _ => hp)
  exact course_bind_stop (course_fatal _ _ _)

/-! ### Loops -/

theorem course_many {p : Parser (Option α)} {I : StateStack → Prop}
    (h : ∀ k, I k → Course k p fun _ => I) (hk : I k) :
    Course k (many p) fun _ => I := by
  have hn : ∀ n k, I k → Course k (manyWithin p n) fun _ => I := by
    intro n
    induction n with
    | zero => exact fun _ _ => course_exhausted
    | succ n ih =>
      intro k hk
      refine course_bind (h k hk) ?_
      rintro (_ | a) k₁ hk₁
      · exact course_pure hk₁
      · exact course_bind (ih k₁ hk₁) fun _ _ hk₂ => course_pure hk₂
  exact keeps_get.course_bind fun _ => hn _ k hk

theorem course_iterate {step : σ → Parser (σ ⊕ α)} {I : StateStack → Prop}
    (h : ∀ a k, I k → Course k (step a) (Sum.elim (fun _ => I) after)) (init : σ) (hk : I k) :
    Course k (iterate step init) after := by
  have hn : ∀ n a k, I k → Course k (iterateWithin step n a) after := by
    intro n
    induction n with
    | zero => exact fun _ _ _ => course_exhausted
    | succ n ih =>
      intro a k hk
      refine course_bind (h a k hk) ?_
      rintro (next | result) k₁ hk₁
      · exact ih next k₁ hk₁
      · exact course_pure hk₁
  exact keeps_get.course_bind fun _ => hn _ init k hk

/-- A loop whose rounds end where they begin. -/
theorem leads_many {p : Parser (Option α)} (h : Leads k p fun _ => k) :
    Leads k (many p) fun _ => k :=
  course_many (I := (· = k)) (by rintro _ rfl; exact h) rfl

/-- A loop whose rounds end where they begin, but for the last one. -/
theorem leads_iterate {step : σ → Parser (σ ⊕ α)}
    (h : ∀ a, Leads k (step a) (Sum.elim (fun _ => k) fun _ => k')) (init : σ) :
    Leads k (iterate step init) fun _ => k' := by
  refine course_iterate (I := (· = k)) ?_ init rfl
  rintro a _ rfl
  exact course_weaken (h a) (by rintro (_ | _) _ hk <;> exact hk)

/-- Parts with separators, of which the first may begin on another stack than the others. -/
theorem leads_separatedBy (h : k'.isStray r.next = false) (hp : Leads k p fun _ => k')
    (hr : Leads (k'.apply r.next) p fun _ => k') : Leads k (separatedBy r p) fun _ => k' :=
  leads_bind hp fun _ => leads_bind (leads_many (leads_whenEats_back h hr)) fun _ => leads_pure rfl

/-- Rules that make one and the same state change. -/
theorem leads_eatFirst {t : Transition} (h : k.isStray t = false)
    {rules : List (Rule × α)} (hr : ∀ x ∈ rules, x.1.next = t) :
    Leads k (eatFirst rules) fun found => found.elim k fun _ => k.apply t := by
  induction rules with
  | nil => exact leads_pure rfl
  | cons x rules ih =>
    have hx : x.1.next = t := hr x List.mem_cons_self
    refine course_ifEat (hx ▸ h) ?_ (ih fun y hy => hr y (List.mem_cons_of_mem x hy))
    exact leads_pure (congrArg k.apply hx)

/-- Rules that make an operand come next, where one comes next anyway. -/
theorem leads_eatFirst_operand {saved : List LexicalState} {rules : List (Rule × α)}
    (hr : ∀ x ∈ rules, x.1.next = .goto .expression) :
    Leads ⟨.expression, saved⟩ (eatFirst rules) fun _ => ⟨.expression, saved⟩ := by
  refine course_weaken (leads_eatFirst rfl hr) ?_
  rintro (_ | _) _ rfl <;> rfl

end

/-! ### Rules without a state change -/

section

variable {r : Rule} {p no : Parser α}

theorem keeps_unexpected (expected : String) : Keeps (unexpected expected : Parser α) :=
  fun _ => course_unexpected expected

theorem keeps_fatal (code : ErrorCode) (offset : Nat) (message : String) :
    Keeps (fatal code offset message : Parser α) :=
  fun _ => course_fatal code offset message

theorem keeps_eat (h : r.next = .stay) : Keeps (eat r) := by
  refine fun k => course_weaken (leads_eat (by rw [h]; rfl)) ?_
  rw [h]
  rintro (_ | _) _ rfl <;> rfl

theorem keeps_ifEat (h : r.next = .stay) (hy : Keeps p) (hn : Keeps no) :
    Keeps (eat r >>= fun matched => if matched then p else no) :=
  (keeps_eat h).seq fun _ => keeps_ite hy hn

theorem keeps_expect (h : r.next = .stay) : Keeps (expect r) :=
  (keeps_eat h).seq fun _ => keeps_ite (keeps_unexpected _) (keeps_pure ())

theorem keeps_whenEats (h : r.next = .stay) (hp : Keeps p) : Keeps (whenEats r p) :=
  keeps_ifEat h (hp.seq fun _ => keeps_pure _) (keeps_pure _)

theorem keeps_many {p : Parser (Option α)} (h : Keeps p) : Keeps (many p) :=
  fun k => leads_many (h k)

theorem keeps_iterate {step : σ → Parser (σ ⊕ α)} (h : ∀ a, Keeps (step a)) (init : σ) :
    Keeps (iterate step init) := by
  refine fun k => leads_iterate (fun a => course_weaken (h a k) ?_) init
  rintro (_ | _) _ rfl <;> rfl

theorem keeps_separatedBy (h : r.next = .stay) (hp : Keeps p) : Keeps (separatedBy r p) :=
  hp.seq fun _ => (keeps_many (keeps_whenEats h hp)).seq fun _ => keeps_pure _

theorem keeps_eatFirst {rules : List (Rule × α)} (h : ∀ x ∈ rules, x.1.next = .stay) :
    Keeps (eatFirst rules) := by
  refine fun k => course_weaken (leads_eatFirst rfl h) ?_
  rintro (_ | _) _ rfl <;> rfl

end

/-! ### Parsers that only leave the saved states alone -/

/-- A state change that saves nothing and comes back from nothing. -/
def Flat (change : Transition) : Prop :=
  ∀ k : StateStack, k.isStray change = false ∧ (k.apply change).saved = k.saved

theorem flat_stay : Flat .stay := fun _ => ⟨rfl, rfl⟩

theorem flat_goto (state : LexicalState) : Flat (.goto state) := fun _ => ⟨rfl, rfl⟩

section

variable {r : Rule} {p no : Parser α}

theorem level_pure (a : α) : Level (pure a : Parser α) := (keeps_pure a).level

theorem level_ite {c : Prop} [Decidable c] (hy : Level p) (hn : Level no) :
    Level (if c then p else no) :=
  fun k => course_ite (fun _ => hy k) fun _ => hn k

theorem level_eat (h : Flat r.next) : Level (eat r) := by
  refine fun k => course_weaken (leads_eat (h k).1) ?_
  rintro (_ | _) _ rfl
  · rfl
  · exact (h k).2

theorem level_ifEat (h : Flat r.next) (hy : Level p) (hn : Level no) :
    Level (eat r >>= fun matched => if matched then p else no) :=
  (level_eat h).bind fun _ => level_ite hy hn

theorem level_unexpected (expected : String) : Level (unexpected expected : Parser α) :=
  fun _ => course_unexpected expected

theorem level_expect (h : Flat r.next) : Level (expect r) :=
  (level_eat h).bind fun _ => level_ite (level_unexpected _) (level_pure ())

theorem level_whenEats (h : Flat r.next) (hp : Level p) : Level (whenEats r p) :=
  level_ifEat h (hp.bind fun _ => level_pure _) (level_pure _)

end

end Parser

end XQuerySyntax
