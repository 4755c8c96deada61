import XQuerySyntax.Grammar.Module
import XQuerySyntax.Proofs.Rollback
import XQuerySyntax.Proofs.Static.Agrees
import XQuerySyntax.Proofs.Tree.Shape

/-! What parsers yield. A parser that is begun in a text stays in it, keeps its depth, and records and
stops at places of the text only. Parsers of expressions also leave the static context as it was, up to
the order of its namespaces, so that what is known of the context is known behind them too. -/

namespace XQuerySyntax

/-- Something known of a context that does not depend on the order of its namespaces. -/
structure Knowledge where
  holds : StaticContext → Prop
  closed : ∀ {c c' : StaticContext}, holds c → c.Agrees c' → holds c'

/-- Inside a frame: something is known of the context behind the frame. -/
def Knowledge.framed (K : Knowledge) : Knowledge where
  holds c := c.frames ≠ [] ∧ K.holds c.popFrame
  closed h ha := ⟨by rw [ha.frames]; exact h.1, K.closed h.2 ha.popFrame⟩

theorem Knowledge.framed_pushFrame (K : Knowledge) {c : StaticContext} (h : K.holds c) :
    K.framed.holds c.pushFrame := ⟨List.cons_ne_nil _ _, h⟩

theorem Knowledge.framed_bind (K : Knowledge) {c : StaticContext} (h : K.framed.holds c)
    (qualifier uri : String) : K.framed.holds (c.bind qualifier uri) :=
  ⟨c.frames_bind_ne_nil qualifier uri h.1, K.closed h.2 (c.popFrame_bind qualifier uri h.1)⟩

/-- A state of parsing the text of an origin, at a depth, with something known of the context. -/
structure ParserState.Within (o : Origin) (d : Nat) (known : StaticContext → Prop)
    (s : ParserState) : Prop where
  scan : s.scan.Within o.text
  module : s.module = o.module
  limit : s.maxDepth = o.limit
  depth : s.depth = d
  context : known s.context
  recorded : ∀ r ∈ s.recorded, o.HasPlace r.offset

/-- The end of a parse that stops: its error and what was recorded stand in places of the text. -/
structure Faulty (text : String) (e : Stop) (s : ParserState) : Prop where
  offset : IsBoundary text (Grammar.Stop.diagnostic e).offset
  recorded : ∀ r ∈ s.recorded, IsBoundary text r.offset

theorem ParserState.Within.mono {o : Origin} {d : Nat} {K K' : StaticContext → Prop} {s : ParserState}
    (h : s.Within o d K) (hi : ∀ c, K c → K' c) : s.Within o d K' :=
  ⟨h.scan, h.module, h.limit, h.depth, hi _ h.context, h.recorded⟩

namespace Parser

variable {o : Origin} {d : Nat} {K : StaticContext → Prop} {α β σ : Type}

/-- From a state of the text the parser comes to another one at the same depth, with an answer that
fits the context, or stops at a place of the text. -/
def Turns (o : Origin) (d : Nat) (K : StaticContext → Prop) (p : Parser α)
    (post : α → StaticContext → Prop) : Prop :=
  Contract (ParserState.Within o d K) p (fun a => ParserState.Within o d (post a)) (Faulty o.text)

/-- Wherever in the text it begins, at this depth the parser ends with a good answer and with the
context as it was. -/
def Yields (o : Origin) (d : Nat) (p : Parser α) (good : α → Prop) : Prop :=
  ∀ K : Knowledge, Turns o d K.holds p fun a c => good a ∧ K.holds c

/-- At any depth the parser ends with an expression that may stand as an operand. -/
abbrev YieldsOperand (o : Origin) (p : Parser Expr) : Prop :=
  ∀ d, Yields o d p (Expr.IsOperand o)

/-- A parser of expressions that may not be there. -/
abbrev YieldsOptional (o : Origin) (p : Parser (Option Expr)) : Prop :=
  ∀ d, Yields o d p fun found => ∀ e ∈ found, e.IsOperand o

section

variable {p : Parser α} {next : α → Parser β} {good : α → Prop} {better : β → Prop}
  {post : α → StaticContext → Prop} {later : β → StaticContext → Prop}

/-! ### Composition -/

theorem Turns.bind (h : Turns o d K p post) (hn : ∀ a, Turns o d (post a) (next a) later) :
    Turns o d K (p >>= next) later := Contract.bind h hn

theorem turns_pure {a : α} (h : ∀ c, K c → post a c) : Turns o d K (pure a) post :=
  fun _ hs => hs.mono h

theorem turns_ite {c : Prop} [Decidable c] {no : Parser α} (hy : c → Turns o d K p post)
    (hn : ¬c → Turns o d K no post) : Turns o d K (if c then p else no) post := Contract.ite hy hn

/-- What does not depend on the context is known before the parser begins. -/
theorem turns_of_known {fact : Prop} (h : fact → Turns o d K p post) :
    Turns o d (fun c => fact ∧ K c) p post :=
  fun s hs => h hs.context.1 s (hs.mono fun _ hc => hc.2)

/-- Behind a parser that leaves the context alone, the same is known of it. -/
theorem Yields.contract_bind {K : Knowledge} {ends : β → ParserState → Prop} (h : Yields o d p good)
    (hn : ∀ a, good a → Contract (ParserState.Within o d K.holds) (next a) ends (Faulty o.text)) :
    Contract (ParserState.Within o d K.holds) (p >>= next) ends (Faulty o.text) :=
  Contract.bind (h K) fun a s hs => hn a hs.context.1 s (hs.mono fun _ hc => hc.2)

theorem Yields.turns_bind {K : Knowledge} (h : Yields o d p good)
    (hn : ∀ a, good a → Turns o d K.holds (next a) later) :
    Turns o d K.holds (p >>= next) later := h.contract_bind hn

/-- What is known before a parser that leaves the context alone is known behind it. -/
theorem Yields.turns {K : Knowledge} (h : Yields o d p good) :
    Turns o d K.holds p fun _ => K.holds :=
  Contract.weaken (h K) (fun _ hs => hs) fun _ _ hs => hs.mono fun _ hc => hc.2

theorem Yields.bind (h : Yields o d p good) (hn : ∀ a, good a → Yields o d (next a) better) :
    Yields o d (p >>= next) better :=
  fun K => h.turns_bind fun a ha => hn a ha K

theorem Yields.weaken {good' : α → Prop} (h : Yields o d p good) (hi : ∀ a, good a → good' a) :
    Yields o d p good' :=
  fun K => Contract.weaken (h K) (fun _ hs => hs) fun a _ hs =>
    hs.mono fun _ hc => ⟨hi a hc.1, hc.2⟩

theorem Yields.map (f : α → β) (h : Yields o d p good) (hi : ∀ a, good a → better (f a)) :
    Yields o d (f <$> p) better :=
  fun K => Contract.map f ((h.weaken hi) K)

theorem yields_pure {a : α} (h : good a) : Yields o d (pure a) good :=
  fun _ => turns_pure fun _ hc => ⟨h, hc⟩

theorem yields_none : Yields o d (pure none : Parser (Option α)) fun found => ∀ a ∈ found, good a :=
  yields_pure fun _ h => nomatch h

theorem yields_some {a : α} (h : good a) :
    Yields o d (pure (some a)) fun found => ∀ a ∈ found, good a := by
  refine yields_pure ?_
  rintro _ ⟨⟩
  exact h

theorem Yields.some (h : Yields o d p good) :
    Yields o d (do return some (← p)) fun found => ∀ a ∈ found, good a :=
  h.bind fun _ ha => yields_some ha

/-- An answer of which nothing is asked. -/
theorem yields_any {a : α} : Yields o d (pure a) fun _ => True := yields_pure trivial

theorem yields_ite {c : Prop} [Decidable c] {no : Parser α} (hy : c → Yields o d p good)
    (hn : ¬c → Yields o d no good) : Yields o d (if c then p else no) good :=
  fun K => turns_ite (fun h => hy h K) fun h => hn h K

theorem yields_forIn {body : α → Parser PUnit} (h : ∀ x, Yields o d (body x) fun _ => True)
    (xs : List α) :
    Yields o d (forIn xs PUnit.unit fun x _ => do
      body x
      return ForInStep.yield PUnit.unit) fun _ => True :=
  fun _ => Contract.weaken (Contract.forIn (fun x => (h x).turns) xs) (fun _ hs => hs) fun _ _ hs =>
    hs.mono fun _ hc => ⟨trivial, hc⟩

end

/-! ### Reading and recording -/

theorem yields_get : Yields o d get fun s => s.scan.Within o.text ∧ s.module = o.module :=
  fun _ _ hs => hs.mono fun _ hc => ⟨⟨hs.scan, hs.module⟩, hc⟩

theorem yields_observe {good : α → Prop} {f : Matcher → α} {there : Matcher → Bool}
    (h : ∀ m : Matcher, m.Within o.text → good (f m)) : Yields o d (observe f there) good :=
  fun _ s hs => { hs with context := ⟨h s.scan hs.scan, hs.context⟩ }

theorem yields_start : Yields o d start o.HasPlace := yields_observe fun _ hm => hm.tokenStart

theorem yields_nextOffset : Yields o d nextOffset o.HasPlace := yields_observe fun _ hm => hm.nextOffset

theorem yields_capturedName (i : Nat) : Yields o d (capturedName i) fun _ => True :=
  yields_observe fun _ _ => trivial

theorem yields_capturedQualifiedName (i : Nat) : Yields o d (capturedQualifiedName i) fun _ => True :=
  yields_observe fun _ _ => trivial

theorem yields_capturedString (i : Nat) : Yields o d (capturedString i) fun _ => True :=
  yields_observe fun _ _ => trivial

theorem yields_capturedNumber? (i : Nat) : Yields o d (capturedNumber? i) fun _ => True :=
  yields_observe fun _ _ => trivial

theorem yields_consult (f : StaticContext → α) : Yields o d (consult f) fun _ => True :=
  yields_get.bind fun _ _ => yields_any

/-- A change of what belongs neither to the text nor to the context. -/
theorem yields_modify {f : ParserState → ParserState}
    (h : ∀ s (d : Nat) (K : StaticContext → Prop), s.Within o d K → (f s).Within o d K) :
    Yields o d (modify f) fun _ => True :=
  fun K s hs => (h s d K.holds hs).mono fun _ hc => ⟨trivial, hc⟩

theorem yields_note {r : Diagnostic} (h : o.HasPlace r.offset) : Yields o d (note r) fun _ => True := by
  refine yields_modify fun s d K hs => { hs with recorded := fun r' hr => ?_ }
  rcases List.mem_append.1 hr with hr | hr
  · exact hs.recorded r' hr
  · rwa [List.mem_singleton.1 hr]

theorem yields_record {offset : Nat} (h : o.HasPlace offset) (code : ErrorCode) (message : String) :
    Yields o d (record code offset message) fun _ => True := yields_note h

theorem yields_warn {offset : Nat} (h : o.HasPlace offset) (code : ErrorCode) (message : String) :
    Yields o d (warn code offset message) fun _ => True := yields_note h

section

variable {good : α → Prop} {post : α → StaticContext → Prop}

theorem turns_fatal {offset : Nat} (h : o.HasPlace offset) (code : ErrorCode) (message : String) :
    Turns o d K (fatal code offset message) post := fun _ hs => ⟨h, hs.recorded⟩

theorem yields_fatal {offset : Nat} (h : o.HasPlace offset) (code : ErrorCode) (message : String) :
    Yields o d (fatal code offset message) good := fun _ => turns_fatal h code message

theorem yields_exhausted : Yields o d exhausted good :=
  fun _ _ hs => ⟨isBoundary_zero o.text, hs.recorded⟩

theorem yields_unexpected (expected : String) : Yields o d (unexpected expected) good :=
  Yields.bind (yields_observe fun _ hm => hm) fun _ hm => yields_fatal hm.nextOffset _ _

/-- Nothing comes behind an error that stops. -/
theorem yields_fatal_bind {β : Type} {next : α → Parser β} {good : β → Prop} {offset : Nat}
    (h : o.HasPlace offset) (code : ErrorCode) (message : String) :
    Yields o d (fatal code offset message >>= next) good := by
  have hstop : Yields o d (fatal code offset message) fun _ : α => False := yields_fatal h _ _
  exact hstop.bind fun _ h => h.elim

theorem turns_unexpected_bind {β : Type} {next : α → Parser β} {post : β → StaticContext → Prop}
    {K : Knowledge} (expected : String) :
    Turns o d K.holds (unexpected expected >>= next) post := by
  have hstop : Yields o d (unexpected expected) fun _ : α => False := yields_unexpected _
  exact hstop.turns_bind fun _ h => h.elim

theorem yields_unexpected_bind {β : Type} {next : α → Parser β} {good : β → Prop}
    (expected : String) : Yields o d (unexpected expected >>= next) good :=
  fun _ => turns_unexpected_bind expected

end

theorem yields_node {kind : ExprKind Expr} {offset : Nat} (hk : kind.Sound o)
    (ho : o.HasPlace offset) :
    Yields o d (node kind offset) fun e => e.Sound o ∧ e.kind = kind ∧ e.offset = offset :=
  yields_get.bind fun s hs => yields_pure ⟨by rw [hs.2]; exact hk.node ho, rfl, rfl⟩

theorem yields_operand {kind : ExprKind Expr} {offset : Nat} (ho : o.HasPlace offset)
    (hk : kind.IsOperand o) : Yields o d (node kind offset) (Expr.IsOperand o) := by
  refine (yields_node hk.toSound ho).weaken ?_
  rintro e ⟨hsound, rfl, -⟩
  exact ⟨hsound, by rw [hk.not_step]; exact Bool.false_ne_true,
    by rw [hk.not_placeholder]; exact Bool.false_ne_true⟩

theorem yields_someOperand {kind : ExprKind Expr} {offset : Nat} (ho : o.HasPlace offset)
    (hk : kind.IsOperand o) :
    Yields o d (do return some (← node kind offset)) fun found => ∀ e ∈ found, e.IsOperand o :=
  (yields_operand ho hk).some

/-! ### Scanning -/

section

variable {r : Rule} {good : α → Prop} {post : α → StaticContext → Prop}

theorem yields_scan {step : Scan α} (h : Scan.Stays o.text step good) : Yields o d (scan step) good := by
  intro K s hs
  have hm := h s.scan hs.scan
  unfold scan
  cases hr : step s.scan with
  | ok a m =>
    rw [hr] at hm
    exact ⟨hm.2, hs.module, hs.limit, hs.depth, ⟨hm.1, hs.context⟩, hs.recorded⟩
  | error e m =>
    rw [hr] at hm
    exact ⟨hm, hs.recorded⟩

theorem yields_eat (r : Rule) : Yields o d (eat r) fun _ => True := yields_scan (Scan.stays_eat r)

theorem yields_peek (r : Rule) : Yields o d (peek r) fun _ => True := yields_scan (Scan.stays_peek r)

theorem yields_atEnd : Yields o d atEnd fun _ => True := yields_scan Scan.stays_atEnd

theorem yields_lexeme {scanner : List Char → Scanned α} (h : ∀ t, (scanner t).Within t) :
    Yields o d (lexeme scanner) fun _ => True := yields_scan (Scan.stays_lexeme_place h)

theorem yields_goto (state : LexicalState) : Yields o d (goto state) fun _ => True :=
  yields_modify fun _ _ _ hs => { hs with scan := ⟨hs.scan.size, hs.scan.rest, hs.scan.token⟩ }

/-- A mark remembers an end of the text, so coming back to it stays in the text. -/
theorem yields_mark : Yields o d mark fun place => place.rest <:+ o.text.toList :=
  yields_observe fun _ hm => hm.rest

theorem yields_restore {place : Matcher.Mark} (h : place.rest <:+ o.text.toList) :
    Yields o d (restore place) fun _ => True :=
  yields_modify fun _ _ _ hs => { hs with scan := ⟨hs.scan.size, h, hs.scan.token⟩ }

/-- A production that goes one way if a rule matches and another way if it does not. -/
theorem yields_ifEat {yes no : Parser α} (hy : Yields o d yes good) (hn : Yields o d no good) :
    Yields o d (eat r >>= fun matched => if matched then yes else no) good :=
  (yields_eat r).bind fun _ _ => yields_ite (fun _ => hy) fun _ => hn

theorem yields_ifPeek {yes no : Parser α} (hy : Yields o d yes good) (hn : Yields o d no good) :
    Yields o d (peek r >>= fun matched => if matched then yes else no) good :=
  (yields_peek r).bind fun _ _ => yields_ite (fun _ => hy) fun _ => hn

theorem yields_expect (r : Rule) : Yields o d (expect r) fun _ => True :=
  (yields_eat r).bind fun _ _ => yields_ite (fun _ => yields_unexpected _) fun _ => yields_any

theorem yields_expectEnd : Yields o d expectEnd fun _ => True :=
  yields_atEnd.bind fun _ _ => yields_ite (fun _ => yields_unexpected _) fun _ => yields_any

theorem yields_whenEats {p : Parser α} (h : Yields o d p good) :
    Yields o d (whenEats r p) fun found => ∀ a ∈ found, good a := yields_ifEat h.some yields_none

theorem yields_eatFirst (table : List (Rule × α)) :
    Yields o d (eatFirst table) fun found => ∀ a ∈ found, a ∈ table.map Prod.snd := by
  induction table with
  | nil => exact yields_pure fun _ h => nomatch h
  | cons entry rest ih =>
    refine yields_ifEat (yields_pure ?_) (ih.weaken fun _ h a ha => List.mem_cons_of_mem _ (h a ha))
    rintro _ ⟨⟩
    exact List.mem_cons_self

end

/-! ### Nesting and loops -/

section

variable {good : α → Prop} {post : α → StaticContext → Prop}

/-- One level deeper the depth is still within the limit. -/
theorem turns_nested {p : Parser α} (h : d + 1 ≤ o.limit → Turns o (d + 1) K p post) :
    Turns o d K (nested p) post := by
  have hdeeper : Contract (ParserState.Within o d K)
      (modify fun s => { s with depth := s.depth + 1 } : Parser PUnit)
      (fun _ => ParserState.Within o (d + 1) K) (Faulty o.text) :=
    fun s hs => { hs with depth := congrArg (· + 1) hs.depth }
  have hlook : Contract (ParserState.Within o (d + 1) K) (get : Parser ParserState)
      (fun s s' => s' = s ∧ s.Within o (d + 1) K) (Faulty o.text) := fun s hs => ⟨rfl, hs⟩
  have hback (a : α) : Contract (ParserState.Within o (d + 1) (post a))
      (do
        modify fun s => { s with depth := s.depth - 1 }
        return a : Parser α)
      (fun a => ParserState.Within o d (post a)) (Faulty o.text) :=
    fun s hs => { hs with depth := congrArg (· - 1) hs.depth }
  refine hdeeper.bind fun _ => hlook.bind fun s => ?_
  refine Contract.ite (fun _ => ?_) fun hle => ?_
  · rintro _ ⟨rfl, hs⟩
    exact ⟨hs.scan.nextOffset, hs.recorded⟩
  · rintro _ ⟨rfl, hs⟩
    have hd : d + 1 ≤ o.limit := by
      rw [hs.depth, hs.limit] at hle
      exact Nat.not_lt.1 hle
    exact Contract.bind (h hd) hback _ hs

theorem yields_nested {p : Parser α} (h : d + 1 ≤ o.limit → Yields o (d + 1) p good) :
    Yields o d (nested p) good := fun K => turns_nested fun hd => h hd K

theorem yields_manyWithin {p : Parser (Option α)} (h : Yields o d p fun found => ∀ a ∈ found, good a)
    (n : Nat) : Yields o d (manyWithin p n) fun as => ∀ a ∈ as, good a := by
  induction n with
  | zero => exact yields_exhausted
  | succ n ih =>
    refine h.bind fun found hfound => ?_
    cases found with
    | none => exact yields_pure fun _ h => nomatch h
    | some a =>
      refine ih.bind fun as has => yields_pure ?_
      exact List.forall_mem_cons.2 ⟨hfound a rfl, has⟩

theorem yields_many {p : Parser (Option α)} (h : Yields o d p fun found => ∀ a ∈ found, good a) :
    Yields o d (many p) fun as => ∀ a ∈ as, good a :=
  yields_get.bind fun _ _ => yields_manyWithin h _

theorem yields_separatedBy {separator : Rule} {p : Parser α} (h : Yields o d p good) :
    Yields o d (separatedBy separator p) fun as => as ≠ [] ∧ ∀ a ∈ as, good a :=
  h.bind fun _ ha => (yields_many (yields_whenEats h)).bind fun _ has =>
    yields_pure ⟨List.cons_ne_nil _ _, List.forall_mem_cons.2 ⟨ha, has⟩⟩

theorem turns_iterate {step : σ → Parser (σ ⊕ α)} {inv : σ → StaticContext → Prop}
    (h : ∀ a, Turns o d (inv a) (step a) fun next c => Sum.elim (inv · c) (post · c) next) (init : σ) :
    Turns o d (inv init) (iterate step init) post := by
  have hlook : Turns o d (inv init) get fun _ => inv init := fun _ hs => hs
  refine hlook.bind fun s => ?_
  induction s.steps generalizing init with
  | zero => exact fun _ hs => ⟨isBoundary_zero o.text, hs.recorded⟩
  | succ n ih =>
    refine (h init).bind fun next => ?_
    cases next with
    | inl next => exact ih next (fun _ hs => hs)
    | inr result => exact turns_pure fun _ hc => hc

theorem yields_iterate {step : σ → Parser (σ ⊕ α)} {fine : σ → Prop}
    (h : ∀ a, fine a → Yields o d (step a) (Sum.elim fine good)) {init : σ} (hi : fine init) :
    Yields o d (iterate step init) good := by
  intro K s hs
  have hstep (a : σ) : Turns o d (fun c => fine a ∧ K.holds c) (step a) fun next c =>
      Sum.elim (fun a => fine a ∧ K.holds c) (fun a => good a ∧ K.holds c) next := by
    refine turns_of_known fun ha => Contract.weaken (h a ha K) (fun _ h => h) fun next s hs => ?_
    cases next <;> exact hs
  exact turns_iterate hstep init s (hs.mono fun _ hc => ⟨hi, hc⟩)

/-- A loop of which nothing is asked. -/
theorem yields_iterate_any {step : σ → Parser (σ ⊕ α)} (h : ∀ a, Yields o d (step a) fun _ => True)
    (init : σ) : Yields o d (iterate step init) fun _ => True := by
  have hstep (a : σ) (_ : True) : Yields o d (step a) (Sum.elim (fun _ => True) fun _ => True) :=
    (h a).weaken fun next _ => by cases next <;> trivial
  exact yields_iterate hstep trivial

end

/-! ### Tests -/

section

variable {r : Rule} {p : Parser α} {next : α → Parser β} {good : α → Prop} {better : β → Prop}

/-- Where a rule matches next, the parser ends with a good answer and with the context as it was. -/
def YieldsAt (o : Origin) (d : Nat) (r : Rule) (p : Parser α) (good : α → Prop) : Prop :=
  ∀ K : Knowledge,
    Contract (fun s => s.Within o d K.holds ∧ (Scan.eat r s.scan).answer = .ok true) p
      (fun a => ParserState.Within o d fun c => good a ∧ K.holds c) (Faulty o.text)

theorem YieldsAt.bind (h : YieldsAt o d r p good) (hn : ∀ a, good a → Yields o d (next a) better) :
    YieldsAt o d r (p >>= next) better :=
  fun K => Contract.bind (h K) fun a s hs => hn a hs.context.1 K s (hs.mono fun _ h => h.2)

/-- A test leaves the rule that it has found to be matched. -/
theorem yields_peek_bind {next : Bool → Parser α} (hy : YieldsAt o d r (next true) good)
    (hn : Yields o d (next false) good) : Yields o d (peek r >>= next) good := by
  intro K
  have hpeek : Contract (ParserState.Within o d K.holds) (peek r)
      (fun matched s => s.Within o d K.holds ∧
        (matched → (Scan.eat r s.scan).answer = .ok true)) (Faulty o.text) := by
    intro s hs
    have hp := yields_peek r K s hs
    unfold peek scan at hp ⊢
    cases hr : Scan.peek r s.scan with
    | ok matched m =>
      rw [hr] at hp
      refine ⟨hp.mono fun _ h => h.2, ?_⟩
      rintro rfl
      exact Scan.eat_of_peek hr
    | error e m =>
      rw [hr] at hp
      exact hp
  refine hpeek.bind fun matched => ?_
  cases matched with
  | false => exact fun s hs => hn K s hs.1
  | true => exact fun s hs => hy K s ⟨hs.1, hs.2 rfl⟩

theorem yieldsAt_whenEats (h : Yields o d p good) :
    YieldsAt o d r (whenEats r p) fun found => ∃ a, found = some a ∧ good a := by
  intro K
  have heat : Contract
      (fun s => s.Within o d K.holds ∧ (Scan.eat r s.scan).answer = .ok true) (eat r)
      (fun matched s => s.Within o d K.holds ∧ matched = true) (Faulty o.text) := by
    rintro s ⟨hs, hready⟩
    have he := yields_eat r K s hs
    unfold eat scan at he ⊢
    cases hr : Scan.eat r s.scan with
    | ok matched m =>
      rw [hr] at he hready
      cases hready
      exact ⟨he.mono fun _ h => h.2, rfl⟩
    | error e m =>
      rw [hr] at hready
      cases hready
  refine heat.bind fun matched => ?_
  rintro s ⟨hs, rfl⟩
  have hfound : Yields o d (do return some (← p)) fun found => ∃ a, found = some a ∧ good a :=
    h.bind fun a ha => yields_pure ⟨a, rfl, ha⟩
  exact hfound K s hs

/-- Where the rule matches, a loop that it leads gives something. -/
theorem yieldsAt_many (h : Yields o d p good) :
    YieldsAt o d r (many (whenEats r p)) fun as => as ≠ [] ∧ ∀ a ∈ as, good a := by
  rintro K s hs
  refine ((yieldsAt_whenEats h).bind fun found hfound => ?_) K s hs
  obtain ⟨a, rfl, ha⟩ := hfound
  refine (yields_manyWithin (yields_whenEats h) _).bind fun as has => yields_pure ?_
  exact ⟨List.cons_ne_nil _ _, List.forall_mem_cons.2 ⟨ha, has⟩⟩

end

/-! ### Changes of the context -/

theorem turns_amend {f : StaticContext → StaticContext} {post : StaticContext → Prop}
    (h : ∀ c, K c → post (f c)) : Turns o d K (amend f) fun _ => post :=
  fun _ hs => ⟨hs.scan, hs.module, hs.limit, hs.depth, h _ hs.context, hs.recorded⟩

theorem turns_amendGet {f : StaticContext → α × StaticContext} {post : α → StaticContext → Prop}
    (h : ∀ c, K c → post (f c).1 (f c).2) : Turns o d K (amendGet f) post :=
  fun _ hs => ⟨hs.scan, hs.module, hs.limit, hs.depth, h _ hs.context, hs.recorded⟩

end Parser

end XQuerySyntax
