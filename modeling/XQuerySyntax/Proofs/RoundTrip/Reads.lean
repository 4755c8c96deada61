import XQuerySyntax.Grammar.Module
import XQuerySyntax.Proofs.RoundTrip.Match

/-! What a parser makes of a text that it accepts. From every state at one place the parser answers
something fit and gets to another place; what is reported and recorded on the way is left open. -/

namespace XQuerySyntax

/-- What a parser is given besides its place in the text. -/
structure Frame where
  context : StaticContext
  module : ModuleId
  depth : Nat
  maxDepth : Nat
  size : Nat
  extensions : Extensions

/-- The text that remains, the lexical states, and what was captured last if that is known. -/
structure Place where
  rest : List Char
  stack : StateStack
  caught : Option Captures

/-- A place of which the captures are not known. -/
def Place.at (rest : List Char) (stack : StateStack) : Place := ⟨rest, stack, none⟩

/-- What parsing depends on besides the place in the text. -/
def ParserState.frame (s : ParserState) : Frame :=
  ⟨s.context, s.module, s.depth, s.maxDepth, s.scan.cursor.size, s.scan.extensions⟩

/-- The parser stands at a place. -/
structure ParserState.At (s : ParserState) (f : Frame) (l : Place) : Prop where
  frame : s.frame = f
  rest : s.scan.cursor.rest = l.rest
  stack : s.scan.stack = l.stack
  caught : ∀ captures ∈ l.caught, s.scan.captures = captures

namespace Parser

variable {α β σ : Type} {f : Frame} {l l₁ l₂ : Place} {p : Parser α} {P : α → Prop} {Q : β → Prop}

/-- From the place `l` the parser answers what `P` allows and gets to the place `l₁`. -/
def Reads (f : Frame) (l : Place) (p : Parser α) (P : α → Prop) (l₁ : Place) : Prop :=
  ∀ s : ParserState, s.At f l → ∃ a s', p s = .ok a s' ∧ P a ∧ s'.At f l₁

/-- From the place `l` the parser goes on as another one does from the place `l₁`. -/
def Passes (f : Frame) (l : Place) (p q : Parser α) (l₁ : Place) : Prop :=
  ∀ s : ParserState, s.At f l → ∃ s', s'.At f l₁ ∧ p s = q s'

/-- From the place `l` the parser stops with an error. -/
def Fails (f : Frame) (l : Place) (p : Parser α) : Prop :=
  ∀ s : ParserState, s.At f l → ∃ e s', p s = .error e s'

/-- From the place `l` the parser stops with an error that `E` allows. -/
def Stops (f : Frame) (l : Place) (p : Parser α) (E : Stop → Prop) : Prop :=
  ∀ s : ParserState, s.At f l → ∃ e s', p s = .error e s' ∧ E e

theorem fails_iff : Fails f l p ↔ Stops f l p fun _ => True := by
  constructor
  · intro h s hs
    obtain ⟨e, s₁, hp⟩ := h s hs
    exact ⟨e, s₁, hp, trivial⟩
  · intro h s hs
    obtain ⟨e, s₁, hp, -⟩ := h s hs
    exact ⟨e, s₁, hp⟩

/-! ### Composition -/

theorem reads_pure {a : α} (h : P a) : Reads f l (pure a) P l :=
  fun s hs => ⟨a, s, rfl, h, hs⟩

theorem reads_bind {next : α → Parser β} (h : Reads f l p P l₁)
    (hn : ∀ a, P a → Reads f l₁ (next a) Q l₂) : Reads f l (p >>= next) Q l₂ := by
  intro s hs
  obtain ⟨a, s₁, hp, ha, hs₁⟩ := h s hs
  obtain ⟨b, s₂, hnext, hb, hs₂⟩ := hn a ha s₁ hs₁
  refine ⟨b, s₂, ?_, hb, hs₂⟩
  change EStateM.bind p next s = _
  unfold EStateM.bind
  rw [hp]
  exact hnext

theorem reads_weaken {P' : α → Prop} (h : Reads f l p P l₁) (hi : ∀ a, P a → P' a) :
    Reads f l p P' l₁ := by
  intro s hs
  obtain ⟨a, s₁, hp, ha, hs₁⟩ := h s hs
  exact ⟨a, s₁, hp, hi a ha, hs₁⟩

theorem reads_map (g : α → β) (h : Reads f l p (fun a => Q (g a)) l₁) :
    Reads f l (g <$> p) Q l₁ := by
  intro s hs
  obtain ⟨a, s₁, hp, ha, hs₁⟩ := h s hs
  refine ⟨g a, s₁, ?_, ha, hs₁⟩
  change EStateM.map g p s = _
  unfold EStateM.map
  rw [hp]

/-- What was captured does not matter any more. -/
theorem reads_forget {rest : List Char} {stack : StateStack} {caught : Option Captures}
    (h : Reads f (.at rest stack) p P l₁) : Reads f ⟨rest, stack, caught⟩ p P l₁ :=
  fun s hs => h s ⟨hs.frame, hs.rest, hs.stack, fun _ h => nomatch h⟩

theorem reads_leave {rest : List Char} {stack : StateStack} {caught : Option Captures}
    (h : Reads f l p P ⟨rest, stack, caught⟩) : Reads f l p P (.at rest stack) := by
  intro s hs
  obtain ⟨a, s₁, hp, ha, hs₁⟩ := h s hs
  exact ⟨a, s₁, hp, ha, hs₁.frame, hs₁.rest, hs₁.stack, fun _ h => nomatch h⟩

theorem passes_refl : Passes f l p p l := fun s hs => ⟨s, hs, rfl⟩

theorem passes_bind {next : α → Parser β} {q : Parser β} (h : Reads f l p P l₁)
    (hn : ∀ a, P a → Passes f l₁ (next a) q l₂) : Passes f l (p >>= next) q l₂ := by
  intro s hs
  obtain ⟨a, s₁, hp, ha, hs₁⟩ := h s hs
  obtain ⟨s₂, hs₂, hnext⟩ := hn a ha s₁ hs₁
  refine ⟨s₂, hs₂, ?_⟩
  change EStateM.bind p next s = _
  unfold EStateM.bind
  rw [hp]
  exact hnext

theorem Passes.reads {q : Parser α} (h : Passes f l p q l₁) (hq : Reads f l₁ q P l₂) :
    Reads f l p P l₂ := by
  intro s hs
  obtain ⟨s₁, hs₁, hp⟩ := h s hs
  rw [hp]
  exact hq s₁ hs₁

theorem Passes.stops {q : Parser α} {E : Stop → Prop} (h : Passes f l p q l₁) (hq : Stops f l₁ q E) :
    Stops f l p E := by
  intro s hs
  obtain ⟨s₁, hs₁, hp⟩ := h s hs
  rw [hp]
  exact hq s₁ hs₁

theorem Stops.bind {E : Stop → Prop} {next : α → Parser β} (h : Stops f l p E) :
    Stops f l (p >>= next) E := by
  intro s hs
  obtain ⟨e, s₁, hp, he⟩ := h s hs
  refine ⟨e, s₁, ?_, he⟩
  change EStateM.bind p next s = _
  unfold EStateM.bind
  rw [hp]

theorem stops_bind {E : Stop → Prop} {next : α → Parser β} (h : Reads f l p P l₁)
    (hn : ∀ a, P a → Stops f l₁ (next a) E) : Stops f l (p >>= next) E := by
  intro s hs
  obtain ⟨a, s₁, hp, ha, hs₁⟩ := h s hs
  obtain ⟨e, s₂, hnext, he⟩ := hn a ha s₁ hs₁
  refine ⟨e, s₂, ?_, he⟩
  change EStateM.bind p next s = _
  unfold EStateM.bind
  rw [hp]
  exact hnext

theorem Passes.fails {q : Parser α} (h : Passes f l p q l₁) (hq : Fails f l₁ q) : Fails f l p :=
  fails_iff.2 (h.stops (fails_iff.1 hq))

theorem Fails.bind {next : α → Parser β} (h : Fails f l p) : Fails f l (p >>= next) :=
  fails_iff.2 (fails_iff.1 h).bind

theorem fails_bind {next : α → Parser β} (h : Reads f l p P l₁) (hn : ∀ a, P a → Fails f l₁ (next a)) :
    Fails f l (p >>= next) :=
  fails_iff.2 (stops_bind h fun a ha => fails_iff.1 (hn a ha))

/-! ### Steps that only look -/

theorem reads_look {g : ParserState → α} (h : ∀ s, s.At f l → P (g s)) :
    Reads f l (do return g (← get)) P l :=
  fun s hs => ⟨g s, s, rfl, h s hs, hs⟩

theorem reads_observe {g : Matcher → α} {there : Matcher → Bool}
    (h : ∀ s : ParserState, s.At f l → P (g s.scan)) : Reads f l (observe g there) P l :=
  fun s hs => ⟨g s.scan, _, rfl, h s hs, hs.frame, hs.rest, hs.stack, hs.caught⟩

theorem reads_start : Reads f l start (fun _ => True) l := reads_observe fun _ _ => trivial

theorem reads_nextOffset : Reads f l nextOffset (fun _ => True) l := reads_observe fun _ _ => trivial

theorem reads_node (kind : ExprKind Expr) (offset : Nat) :
    Reads f l (node kind offset) (fun e => e = ⟨kind, offset, f.module⟩) l :=
  reads_look fun s hs => by rw [← hs.frame]; rfl

theorem reads_consult (g : StaticContext → α) :
    Reads f l (consult g) (fun a => a = g f.context) l :=
  reads_look fun s hs => by rw [← hs.frame]; rfl

theorem reads_captured {rest : List Char} {stack : StateStack} {captures : Captures}
    {there : Matcher → Bool} (g : Captures → α) :
    Reads f ⟨rest, stack, some captures⟩ (observe (fun m => g m.captures) there)
      (fun a => a = g captures) ⟨rest, stack, some captures⟩ :=
  reads_observe fun _ hs => congrArg g (hs.caught captures rfl)

theorem reads_record (code : ErrorCode) (offset : Nat) (message : String) :
    Reads f l (record code offset message) (fun _ => True) l :=
  fun _ hs => ⟨(), _, rfl, trivial, hs.frame, hs.rest, hs.stack, hs.caught⟩

/-! ### Rules -/

variable {text rest : List Char} {stack : StateStack} {r : Rule} {found : Captures}
  {caught : Option Captures}

/-- In this lexical state the rule does not match this text. -/
def Declines (state : LexicalState) (text : List Char) (r : Rule) : Prop :=
  ∀ m : Matcher, m.state = state → m.cursor.rest = text → Scan.Declined r m

/-- In this lexical state the rule is allowed, and matches this text up to `rest`. -/
structure Takes (state : LexicalState) (text : List Char) (r : Rule) (rest : List Char)
    (found : Captures) : Prop where
  core : r.extension = .core
  allowed : r.states.contains state
  pattern : Scan.Matches state r text rest found

/-- The same of a rule that may belong to an extension, which has to be switched on. -/
structure TakesUnder (x : Extensions) (state : LexicalState) (text : List Char) (r : Rule)
    (rest : List Char) (found : Captures) : Prop where
  enabled : x.enables r.extension
  allowed : r.states.contains state
  pattern : Scan.Matches state r text rest found

theorem Takes.under {state : LexicalState} (h : Takes state text r rest found) (x : Extensions) :
    TakesUnder x state text r rest found := by
  refine ⟨?_, h.allowed, h.pattern⟩
  rw [h.core]
  rfl

theorem TakesUnder.admits {m : Matcher} (h : TakesUnder m.extensions stack.active text r rest found)
    (hm : m.stack = stack) : m.admits r := by
  have hstate : r.states.contains m.state := by
    rw [Matcher.state, hm]
    exact h.allowed
  rw [Matcher.admits, hstate, h.enabled]
  rfl

theorem Takes.admits (h : Takes stack.active text r rest found) {m : Matcher} (hm : m.stack = stack) :
    m.admits r := (h.under _).admits hm

theorem reads_scan_under {step : Scan α} (h : ∀ m : Matcher, m.stack = stack → m.cursor.rest = text →
      m.extensions = f.extensions → ∃ a m', step m = .ok a m' ∧ P a ∧
        (m'.cursor.size = m.cursor.size ∧ m'.extensions = m.extensions) ∧
        m'.cursor.rest = l₁.rest ∧ m'.stack = l₁.stack ∧ ∀ c ∈ l₁.caught, m'.captures = c) :
    Reads f ⟨text, stack, caught⟩ (scan step) P l₁ := by
  intro s hs
  have hframe : s.frame = f := hs.frame
  obtain ⟨a, m', hstep, ha, ⟨hsize, hextensions⟩, hrest, hstack, hcaught⟩ :=
    h s.scan hs.stack hs.rest (by rw [← hframe]; rfl)
  refine ⟨a, { s with scan := m' }, ?_, ha, ?_, hrest, hstack, hcaught⟩
  · unfold scan
    rw [hstep]
  · rw [← hframe]
    unfold ParserState.frame
    dsimp only
    rw [hsize, hextensions]

theorem reads_scan {step : Scan α} (h : ∀ m : Matcher, m.stack = stack → m.cursor.rest = text →
      ∃ a m', step m = .ok a m' ∧ P a ∧
        (m'.cursor.size = m.cursor.size ∧ m'.extensions = m.extensions) ∧
        m'.cursor.rest = l₁.rest ∧ m'.stack = l₁.stack ∧ ∀ c ∈ l₁.caught, m'.captures = c) :
    Reads f ⟨text, stack, caught⟩ (scan step) P l₁ :=
  reads_scan_under fun m hstack htext _ => h m hstack htext

theorem reads_eat_declined (h : Declines stack.active text r) :
    Reads f (.at text stack) (eat r) (fun b => b = false) (.at text stack) := by
  refine reads_scan fun m hstack htext => ?_
  obtain ⟨captures, heat, -⟩ := h m (congrArg StateStack.active hstack) htext
  exact ⟨false, _, heat, rfl, ⟨rfl, rfl⟩, htext, hstack, fun _ h => nomatch h⟩

theorem reads_peek_declined (h : Declines stack.active text r) :
    Reads f (.at text stack) (peek r) (fun b => b = false) (.at text stack) := by
  refine reads_scan fun m hstack htext => ?_
  obtain ⟨captures, -, hpeek⟩ := h m (congrArg StateStack.active hstack) htext
  exact ⟨false, _, hpeek, rfl, ⟨rfl, rfl⟩, htext, hstack, fun _ h => nomatch h⟩

theorem reads_eat_under (h : TakesUnder f.extensions stack.active text r rest found) :
    Reads f ⟨text, stack, caught⟩ (eat r) (fun b => b = true)
      ⟨rest, stack.apply r.next, some found⟩ := by
  refine reads_scan_under fun m hstack htext hextensions => ?_
  rw [← hextensions] at h
  obtain ⟨token, hpattern⟩ := h.pattern m (congrArg StateStack.active hstack) htext
  have heat : Scan.eat r m =
      .ok true (Matcher.apply { m.moveTo rest with token, captures := found } r.next) := by
    unfold Scan.eat
    rw [if_pos (h.admits hstack), hpattern]
  refine ⟨true, _, heat, rfl, ⟨rfl, rfl⟩, rfl, ?_, ?_⟩
  · rw [← hstack]
    rfl
  · rintro _ ⟨⟩
    rfl

theorem reads_eat (h : Takes stack.active text r rest found) :
    Reads f ⟨text, stack, caught⟩ (eat r) (fun b => b = true)
      ⟨rest, stack.apply r.next, some found⟩ := reads_eat_under (h.under _)

/-- A rule that stops at malformed text stops the parser. -/
theorem stops_eat {E : Stop → Prop} (hcore : r.extension = .core)
    (hstates : r.states.contains stack.active) (hblanks : stack.active.skipsBlanks)
    (h : ∀ m : Matcher, m.state = stack.active → m.cursor.rest = text → m.cursor.size = f.size →
      ∃ d m', (Scan.skipTrivia >>= fun _ => Scan.items r.items false none) m = .error d m' ∧
        E (.fatal d)) :
    Stops f (.at text stack) (eat r) E := by
  intro s hs
  have hactive : s.scan.state = stack.active := congrArg StateStack.active hs.stack
  have hadmits : s.scan.admits r := by
    rw [Matcher.admits, hactive, hstates, hcore]
    rfl
  have hanswer := Scan.answer_eat r s.scan
  obtain ⟨d, m', hitems, hd⟩ :=
    h { s.scan with captures := [] } hactive hs.rest (congrArg Frame.size hs.frame)
  rw [if_pos hadmits, Scan.answer_pattern, hactive, if_pos hblanks, hitems] at hanswer
  cases heat : Scan.eat r s.scan with
  | ok matched m₁ =>
    rw [heat] at hanswer
    cases hanswer
  | error d' m₁ =>
    rw [heat] at hanswer
    cases hanswer
    refine ⟨.fatal d, { s with scan := m₁ }, ?_, hd⟩
    unfold eat scan
    rw [heat]

theorem reads_peek (h : Takes stack.active text r rest found) :
    Reads f ⟨text, stack, caught⟩ (peek r) (fun b => b = true) ⟨text, stack, some found⟩ := by
  refine reads_scan fun m hstack htext => ?_
  obtain ⟨token, hpattern⟩ := h.pattern m (congrArg StateStack.active hstack) htext
  have hpeek : Scan.peek r m =
      .ok true (Matcher.moveTo { m.moveTo rest with token, captures := found } m.cursor.rest) := by
    unfold Scan.peek
    rw [if_pos (h.admits hstack), hpattern]
  refine ⟨true, _, hpeek, rfl, ⟨rfl, rfl⟩, htext, hstack, ?_⟩
  rintro _ ⟨⟩
  rfl

theorem reads_lexeme {scanner : List Char → Scanned α} {a : α} (h : scanner text = .found a rest) :
    Reads f ⟨text, stack, caught⟩ (lexeme scanner) (fun found => found = some a)
      (.at rest stack) := by
  refine reads_scan fun m hstack htext => ?_
  have hlexeme : Scan.lexeme scanner m = .ok (some a) (m.moveTo rest) :=
    Scan.lexeme_found (htext ▸ h)
  exact ⟨some a, _, hlexeme, rfl, ⟨rfl, rfl⟩, rfl, hstack, fun _ h => nomatch h⟩

theorem reads_goto (state : LexicalState) :
    Reads f ⟨text, stack, caught⟩ (goto state) (fun _ => True) ⟨text, stack.goto state, caught⟩ :=
  fun _ hs => ⟨(), _, rfl, trivial, hs.frame, hs.rest, congrArg (·.goto state) hs.stack, hs.caught⟩

/-! ### Choices -/

theorem reads_ifEat_declined {yes no : Parser α} (h : Declines stack.active text r)
    (hno : Reads f (.at text stack) no P l₁) :
    Reads f (.at text stack) (eat r >>= fun b => if b = true then yes else no) P l₁ := by
  refine reads_bind (reads_eat_declined h) fun b hb => ?_
  rw [hb]
  exact hno

theorem reads_ifEat_under {yes no : Parser α}
    (h : TakesUnder f.extensions stack.active text r rest found)
    (hyes : Reads f ⟨rest, stack.apply r.next, some found⟩ yes P l₁) :
    Reads f (.at text stack) (eat r >>= fun b => if b = true then yes else no) P l₁ := by
  refine reads_bind (reads_eat_under h) fun b hb => ?_
  rw [if_pos hb]
  exact hyes

theorem reads_ifEat {yes no : Parser α} (h : Takes stack.active text r rest found)
    (hyes : Reads f ⟨rest, stack.apply r.next, some found⟩ yes P l₁) :
    Reads f (.at text stack) (eat r >>= fun b => if b = true then yes else no) P l₁ :=
  reads_ifEat_under (h.under _) hyes

theorem reads_ifPeek_declined {yes no : Parser α} (h : Declines stack.active text r)
    (hno : Reads f (.at text stack) no P l₁) :
    Reads f (.at text stack) (peek r >>= fun b => if b = true then yes else no) P l₁ := by
  refine reads_bind (reads_peek_declined h) fun b hb => ?_
  rw [hb]
  exact hno

theorem reads_ifPeek {yes no : Parser α} (h : Takes stack.active text r rest found)
    (hyes : Reads f ⟨text, stack, some found⟩ yes P l₁) :
    Reads f (.at text stack) (peek r >>= fun b => if b = true then yes else no) P l₁ := by
  refine reads_bind (reads_peek h) fun b hb => ?_
  rw [if_pos hb]
  exact hyes

theorem reads_unlessPeek_declined {yes no : Parser α} (h : Declines stack.active text r)
    (hno : Reads f (.at text stack) no P l₁) :
    Reads f (.at text stack) (peek r >>= fun b => if (!b) = true then no else yes) P l₁ := by
  refine reads_bind (reads_peek_declined h) fun b hb => ?_
  rw [hb]
  exact hno

theorem reads_unlessPeek {yes no : Parser α} (h : Takes stack.active text r rest found)
    (hyes : Reads f ⟨text, stack, some found⟩ yes P l₁) :
    Reads f (.at text stack) (peek r >>= fun b => if (!b) = true then no else yes) P l₁ := by
  refine reads_bind (reads_peek h) fun b hb => ?_
  rw [hb]
  exact hyes

theorem reads_expect (h : Takes stack.active text r rest found) :
    Reads f ⟨text, stack, caught⟩ (expect r) (fun _ => True)
      ⟨rest, stack.apply r.next, some found⟩ := by
  refine reads_bind (reads_eat h) fun b hb => ?_
  rw [hb]
  exact reads_pure trivial

theorem reads_whenEats_declined {p : Parser α} (h : Declines stack.active text r) :
    Reads f (.at text stack) (whenEats r p) (fun a => a = none) (.at text stack) :=
  reads_ifEat_declined h (reads_pure rfl)

theorem reads_whenEats_under (h : TakesUnder f.extensions stack.active text r rest found)
    (hp : Reads f ⟨rest, stack.apply r.next, some found⟩ p P l₁) :
    Reads f (.at text stack) (whenEats r p) (fun o => ∃ a, o = some a ∧ P a) l₁ :=
  reads_ifEat_under h (reads_bind hp fun a ha => reads_pure ⟨a, rfl, ha⟩)

theorem reads_whenEats (h : Takes stack.active text r rest found)
    (hp : Reads f ⟨rest, stack.apply r.next, some found⟩ p P l₁) :
    Reads f (.at text stack) (whenEats r p) (fun o => ∃ a, o = some a ∧ P a) l₁ :=
  reads_whenEats_under (h.under _) hp

theorem reads_eatFirst_declined {rules : List (Rule × α)}
    (h : ∀ o ∈ rules, Declines stack.active text o.1) :
    Reads f (.at text stack) (eatFirst rules) (fun a => a = none) (.at text stack) := by
  induction rules with
  | nil => exact reads_pure rfl
  | cons o rules ih =>
    have hrest := ih fun o' ho' => h o' (List.mem_cons_of_mem o ho')
    exact reads_ifEat_declined (h o List.mem_cons_self) hrest

theorem reads_eatFirst_under {before after : List (Rule × α)} {a : α}
    (hbefore : ∀ o ∈ before, Declines stack.active text o.1)
    (h : TakesUnder f.extensions stack.active text r rest found) :
    Reads f (.at text stack) (eatFirst (before ++ (r, a) :: after)) (fun o => o = some a)
      ⟨rest, stack.apply r.next, some found⟩ := by
  induction before with
  | nil => exact reads_ifEat_under h (reads_pure rfl)
  | cons o before ih =>
    have hrest := ih fun o' ho' => hbefore o' (List.mem_cons_of_mem o ho')
    exact reads_ifEat_declined (hbefore o List.mem_cons_self) hrest

theorem reads_eatFirst {before after : List (Rule × α)} {a : α}
    (hbefore : ∀ o ∈ before, Declines stack.active text o.1)
    (h : Takes stack.active text r rest found) :
    Reads f (.at text stack) (eatFirst (before ++ (r, a) :: after)) (fun o => o = some a)
      ⟨rest, stack.apply r.next, some found⟩ := reads_eatFirst_under hbefore (h.under _)

theorem passes_ifEat_declined {yes no q : Parser α} (h : Declines stack.active text r)
    (hno : Passes f (.at text stack) no q l₁) :
    Passes f (.at text stack) (eat r >>= fun b => if b = true then yes else no) q l₁ := by
  refine passes_bind (reads_eat_declined h) fun b hb => ?_
  rw [hb]
  exact hno

theorem passes_ifPeek_declined {yes no q : Parser α} (h : Declines stack.active text r)
    (hno : Passes f (.at text stack) no q l₁) :
    Passes f (.at text stack) (peek r >>= fun b => if b = true then yes else no) q l₁ := by
  refine passes_bind (reads_peek_declined h) fun b hb => ?_
  rw [hb]
  exact hno

/-! ### Nesting and loops -/

theorem reads_nested (hdepth : f.depth < f.maxDepth)
    (h : Reads { f with depth := f.depth + 1 } l p P l₁) : Reads f l (nested p) P l₁ := by
  intro s hs
  let inner : ParserState := { s with depth := s.depth + 1 }
  have hframe : s.frame = f := hs.frame
  have hinner : inner.At { f with depth := f.depth + 1 } l :=
    ⟨by rw [← hframe]; rfl, hs.rest, hs.stack, hs.caught⟩
  obtain ⟨a, s₁, hp, ha, hs₁⟩ := h inner hinner
  have hlimit : ¬inner.depth > inner.maxDepth := by
    rw [← hframe] at hdepth
    exact Nat.not_lt.2 hdepth
  refine ⟨a, { s₁ with depth := s₁.depth - 1 }, ?_, ha, ?_, hs₁.rest, hs₁.stack, hs₁.caught⟩
  · have hrun : nested p s = (p >>= fun a => do
        modify fun s => { s with depth := s.depth - 1 }
        return a : Parser α) inner := by
      change (if inner.depth > inner.maxDepth then _ else _ : Parser α) inner = _
      rw [if_neg hlimit]
    rw [hrun]
    change EStateM.bind p _ inner = _
    unfold EStateM.bind
    rw [hp]
    rfl
  · have hframe₁ : s₁.frame = { f with depth := f.depth + 1 } := hs₁.frame
    exact congrArg (fun g : Frame => { g with depth := g.depth - 1 }) hframe₁

theorem stops_nested {E : Stop → Prop} (hdepth : f.depth < f.maxDepth)
    (h : Stops { f with depth := f.depth + 1 } l p E) : Stops f l (nested p) E := by
  intro s hs
  let inner : ParserState := { s with depth := s.depth + 1 }
  have hframe : s.frame = f := hs.frame
  have hinner : inner.At { f with depth := f.depth + 1 } l :=
    ⟨by rw [← hframe]; rfl, hs.rest, hs.stack, hs.caught⟩
  have hlimit : ¬inner.depth > inner.maxDepth := by
    rw [← hframe] at hdepth
    exact Nat.not_lt.2 hdepth
  obtain ⟨e, s₁, hp, he⟩ := h inner hinner
  refine ⟨e, s₁, ?_, he⟩
  change (if inner.depth > inner.maxDepth then _ else _ : Parser α) inner = _
  rw [if_neg hlimit]
  change EStateM.bind p _ inner = _
  unfold EStateM.bind
  rw [hp]

theorem reads_many {p : Parser (Option α)} {P : List α → Prop}
    (h : Reads f l (manyWithin p (f.size + 1)) P l₁) : Reads f l (many p) P l₁ := by
  intro s hs
  have hsteps : s.steps = f.size + 1 := by rw [← hs.frame]; rfl
  have hs' := h s hs
  rw [← hsteps] at hs'
  exact hs'

theorem reads_iterate {step : σ → Parser (σ ⊕ α)} {a : σ}
    (h : Reads f l (iterateWithin step (f.size + 1) a) P l₁) : Reads f l (iterate step a) P l₁ := by
  intro s hs
  have hsteps : s.steps = f.size + 1 := by rw [← hs.frame]; rfl
  have hs' := h s hs
  rw [← hsteps] at hs'
  exact hs'

theorem reads_manyWithin_nil {p : Parser (Option α)} {n : Nat}
    (h : Reads f l p (fun a => a = none) l₁) :
    Reads f l (manyWithin p (n + 1)) (fun as => as = []) l₁ := by
  refine reads_bind h fun a ha => ?_
  rw [ha]
  exact reads_pure rfl

theorem reads_manyWithin_cons {p : Parser (Option α)} {Q : List α → Prop} {n : Nat}
    (h : Reads f l p (fun o => ∃ a, o = some a ∧ P a) l₁)
    (hn : Reads f l₁ (manyWithin p n) Q l₂) :
    Reads f l (manyWithin p (n + 1)) (fun as => ∃ a as', as = a :: as' ∧ P a ∧ Q as') l₂ := by
  refine reads_bind h fun o ho => ?_
  obtain ⟨a, rfl, ha⟩ := ho
  exact reads_bind hn fun as has => reads_pure ⟨a, as, rfl, ha, has⟩

theorem reads_iterateWithin_done {step : σ → Parser (σ ⊕ α)} {a : σ} {n : Nat}
    (h : Reads f l (step a) (fun o => ∃ b, o = .inr b ∧ P b) l₁) :
    Reads f l (iterateWithin step (n + 1) a) P l₁ := by
  refine reads_bind h fun o ho => ?_
  obtain ⟨b, rfl, hb⟩ := ho
  exact reads_pure hb

theorem reads_iterateWithin_next {step : σ → Parser (σ ⊕ β)} {S : σ → Prop} {a : σ} {n : Nat}
    (h : Reads f l (step a) (fun o => ∃ b, o = .inl b ∧ S b) l₁)
    (hn : ∀ b, S b → Reads f l₁ (iterateWithin step n b) Q l₂) :
    Reads f l (iterateWithin step (n + 1) a) Q l₂ := by
  refine reads_bind h fun o ho => ?_
  obtain ⟨b, rfl, hb⟩ := ho
  exact hn b hb

end Parser

end XQuerySyntax

/-! ### Names

Names are read with the namespaces that their qualifiers stand for. -/

namespace XQuerySyntax

open XQuerySyntax.Parser Grammar

/-- A name whose parts are simple names. -/
def QName.isLexical (n : QName) : Bool :=
  isName n.localPart.toList && n.qualifier.all fun q => isName q.toList

/-- The name is written with simple names, and has the namespace that its qualifier stands for, or the
default one if it has no qualifier. -/
def QName.ResolvesIn (context : StaticContext) (default : Option String) (n : QName) : Prop :=
  n.isLexical ∧ n.namespaceUri =
    match n.qualifier with
    | none => default
    | some q => context.resolve? q

namespace Parser

variable {f : Frame} {l : Place} {rest : List Char} {stack : StateStack}

/-- A qualifier that is not bound is recorded, which does not stop the parser. -/
theorem reads_resolveQualifier (qualifier : String) (offset : Nat) :
    Reads f l (resolveQualifier qualifier offset) (fun uri => uri = f.context.resolve? qualifier)
      l := by
  refine reads_bind (reads_consult _) fun uri huri => ?_
  extract_lets answer
  have hanswer : Reads f l (answer ()) (fun uri => uri = f.context.resolve? qualifier) l :=
    reads_pure huri
  split
  · exact reads_bind (reads_record _ _ _) fun _ _ => hanswer
  · exact hanswer

theorem reads_resolveName {n : QName} {default : Option String} (hn : n.ResolvesIn f.context default)
    (offset : Nat) :
    Reads f l (resolveName ⟨n.qualifier, n.localPart⟩ default offset) (fun name => name = n) l := by
  obtain ⟨-, huri⟩ := hn
  obtain ⟨qualifier, localPart, uri⟩ := n
  cases qualifier with
  | none =>
    obtain rfl : uri = default := huri
    exact reads_pure rfl
  | some q =>
    obtain rfl : uri = f.context.resolve? q := huri
    refine reads_bind (reads_resolveQualifier q offset) fun uri huri => ?_
    rw [huri]
    exact reads_pure rfl

theorem reads_elementName {n : QName} (hn : n.ResolvesIn f.context f.context.elementNamespace?)
    (offset : Nat) :
    Reads f l (elementName ⟨n.qualifier, n.localPart⟩ offset) (fun name => name = n) l := by
  refine reads_bind (reads_consult _) fun default hdefault => ?_
  rw [hdefault]
  exact reads_resolveName hn offset

/-- The name that a rule has captured. -/
theorem reads_caughtName {β : Type} {n : QName} {next : LexicalName → Parser β} {Q : β → Prop}
    {l₂ : Place}
    (h : Reads f (.at rest stack) (next ⟨n.qualifier, n.localPart⟩) Q l₂) :
    Reads f ⟨rest, stack, some [.qualifiedName ⟨n.qualifier, n.localPart⟩]⟩
      (capturedQualifiedName 0 >>= next) Q l₂ := by
  refine reads_bind (reads_captured fun captures => captures.qualifiedName 0) fun q hq => ?_
  obtain rfl : q = ⟨n.qualifier, n.localPart⟩ := hq
  exact reads_forget h

end Parser

end XQuerySyntax
