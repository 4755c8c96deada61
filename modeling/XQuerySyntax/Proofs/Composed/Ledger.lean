import XQuerySyntax.Proofs.Composed.Steps
import XQuerySyntax.Proofs.Order.Forward
import XQuerySyntax.Proofs.Repetition.Key

/-! The ledger of a prolog: which keys are known, and which errors about declarations are recorded. What
is composed of plain steps leaves it alone, since the malformed parts that expressions report stand behind
the place where the last declaration begins. -/

namespace XQuerySyntax

/-- What a diagnostic says about declarations, if it is about a key that is given again or stands where one
of the declarations begins. -/
def Diagnostic.report? (begun : List Nat) (d : Diagnostic) : Option (ErrorCode × Nat) :=
  if d.code.isRepetition ∨ d.code = .malformed ∧ d.offset ∈ begun then some (d.code, d.offset) else none

/-- Whether a key is known. -/
def ParserState.knows (s : ParserState) : DeclarationKey → Bool
  | .setting setter => s.context.isDeclared setter
  | .qualifier q => s.declaredPrefixes.contains q
  | .decimalFormat name => s.context.decimalFormats.has name
  | .variableName name => (s.context.findVariable? name).isSome
  | .functionName name arity => (s.context.findFunction? name arity).isSome
  | .moduleNamespace uri => s.context.moduleImports.has uri
  | .schemaNamespace uri => s.context.schemaImports.has uri

/-- The known keys and the reports about declarations. The matcher is behind the bound, behind all places in
`K` and behind everything malformed that is recorded. -/
structure ParserState.Ledger (n b : Nat) (K : Nat → Prop) (begun : List Nat) (known : List DeclarationKey)
    (reports : List (ErrorCode × Nat)) (s : ParserState) : Prop where
  behind : s.scan.Behind n b
  passed : ∀ o, K o → s.scan.Behind n (o + 1)
  malformed : ∀ d ∈ s.recorded, d.code = .malformed → s.scan.Behind n (d.offset + 1)
  known : ∀ k, s.knows k = true ↔ k ∈ known
  reports : s.recorded.filterMap (Diagnostic.report? begun) = reports

namespace ParserState.Ledger

variable {n b : Nat} {K : Nat → Prop} {begun : List Nat} {known : List DeclarationKey}
  {reports : List (ErrorCode × Nat)} {s : ParserState}

/-- The matcher may move on. -/
theorem moved (h : s.Ledger n b K begun known reports) {m : Matcher}
    (hm : ∀ x, s.scan.Behind n x → m.Behind n x) :
    ({ s with scan := m } : ParserState).Ledger n b K begun known reports where
  behind := hm _ h.behind
  passed o ho := hm _ (h.passed o ho)
  malformed d hd hcode := hm _ (h.malformed d hd hcode)
  known := h.known
  reports := h.reports

/-- The state may change where no key is known from. -/
theorem altered (h : s.Ledger n b K begun known reports) {s' : ParserState} (hscan : s'.scan = s.scan)
    (hrecorded : s'.recorded = s.recorded) (hknows : s'.knows = s.knows) :
    s'.Ledger n b K begun known reports where
  behind := by rw [hscan]; exact h.behind
  passed := by rw [hscan]; exact h.passed
  malformed := by rw [hscan, hrecorded]; exact h.malformed
  known := by rw [hknows]; exact h.known
  reports := by rw [hrecorded]; exact h.reports

/-- Another diagnostic may be recorded, as long as something malformed is behind the matcher. -/
theorem noted (h : s.Ledger n b K begun known reports) {d : Diagnostic}
    (hd : d.code = .malformed → s.scan.Behind n (d.offset + 1)) :
    ({ s with recorded := s.recorded ++ [d] } : ParserState).Ledger n b K begun known
      (reports ++ (d.report? begun).toList) where
  behind := h.behind
  passed := h.passed
  malformed := List.forall_mem_append.2 ⟨h.malformed, List.forall_mem_singleton.2 hd⟩
  known := h.known
  reports := by
    rw [List.filterMap_append, h.reports]
    cases hr : d.report? begun <;> simp [hr]

/-- Another diagnostic may be recorded that says nothing about declarations. -/
theorem noted_other (h : s.Ledger n b K begun known reports) {d : Diagnostic}
    (hd : d.code = .malformed → s.scan.Behind n (d.offset + 1)) (hr : d.report? begun = none) :
    ({ s with recorded := s.recorded ++ [d] } : ParserState).Ledger n b K begun known reports := by
  have h := h.noted hd
  rwa [hr, Option.toList_none, List.append_nil] at h

end ParserState.Ledger

theorem Diagnostic.report?_of_other {d : Diagnostic} (hcode : d.code.isRepetition = false)
    (hm : d.code ≠ .malformed) (begun : List Nat) : d.report? begun = none := by
  rw [report?, if_neg]
  rintro (h | h)
  · rw [hcode] at h
    cases h
  · exact hm h.1

theorem ErrorCode.isInner_other {code : ErrorCode} (h : code.isInner = true) :
    code.isRepetition = false ∧ code ≠ .malformed := by
  cases code <;> first | exact absurd h (by decide) | exact ⟨rfl, by decide⟩

/-- Keys are not known from the namespaces in scope. -/
theorem ParserState.knows_namespaces {s : ParserState} {c : StaticContext}
    (h : ∃ bindings frames, c = { s.context with bindings, frames }) :
    ({ s with context := c } : ParserState).knows = s.knows := by
  obtain ⟨bindings, frames, rfl⟩ := h
  funext k
  cases k <;> rfl

theorem StaticContext.exists_popFrame (c : StaticContext) :
    ∃ bindings frames, c.popFrame = { c with bindings, frames } := by
  unfold popFrame
  split
  · exact ⟨c.bindings, c.frames, rfl⟩
  · exact ⟨_, _, rfl⟩

namespace Parser

variable {α β : Type} {n b : Nat} {begun : List Nat} {known : List DeclarationKey}
  {reports : List (ErrorCode × Nat)} {K : Nat → Prop}

/-- The ledger, and the same from the mark if there is one. -/
def LedgerAt (n b : Nat) (K : Nat → Prop) (begun : List Nat) (known : List DeclarationKey)
    (reports : List (ErrorCode × Nat)) (place : Option Matcher.Mark) (s : ParserState) : Prop :=
  s.Ledger n b K begun known reports ∧
    ∀ mark ∈ place, ({ s with scan := s.scan.restore mark } : ParserState).Ledger n b K begun known reports

/-- A scanning step that moves on in the text leaves the ledger alone. -/
theorem ledger_scan {step : Scan α} (h : Order.Passes (scan step)) :
    Contract (ParserState.Ledger n b K begun known reports) (scan step)
      (fun _ => ParserState.Ledger n b K begun known reports) fun _ _ => True := by
  intro s hs
  unfold scan
  cases hr : step s.scan with
  | error d m => trivial
  | ok a m =>
    have hstep : scan step s = .ok a { s with scan := m } := by
      unfold scan
      rw [hr]
    exact hs.moved fun x hx => Contract.of_ok (s := s) (h n x) hx hstep

theorem behind_restore {m m' : Matcher} (h : m'.cursor.size = m.cursor.size) (mark : Matcher.Mark) (x : Nat) :
    (m.restore mark).Behind n x → (m'.restore mark).Behind n x :=
  fun hx => ⟨h.trans hx.size, hx.place⟩

/-- Whether a rule matches or not, the ledger stays as it is, and so it does from a mark. -/
theorem ledgerAt_eat (place : Option Matcher.Mark) (r : Rule) :
    Contract (LedgerAt n b K begun known reports place) (eat r)
      (fun _ => LedgerAt n b K begun known reports place) fun _ _ => True := by
  intro s hs
  have hledger := ledger_scan (Order.passes_eat r) s hs.1
  unfold eat scan at hledger ⊢
  cases hr : Scan.eat r s.scan with
  | error d m => trivial
  | ok matched m =>
    rw [hr] at hledger
    refine ⟨hledger, fun mark hmark => ?_⟩
    exact (hs.2 mark hmark).moved fun x => behind_restore (Scan.settings_eat hr).size mark x

theorem ledgerAt_eatFirst (place : Option Matcher.Mark) (table : List (Rule × α)) :
    Contract (LedgerAt n b K begun known reports place) (eatFirst table)
      (fun _ => LedgerAt n b K begun known reports place) fun _ _ => True := by
  induction table with
  | nil => exact fun _ hs => hs
  | cons entry rest ih =>
    exact (ledgerAt_eat place entry.1).bind fun _ => Contract.ite (fun _ _ hs => hs) fun _ => ih

theorem ledgerAt_none {s : ParserState} (h : s.Ledger n b K begun known reports) :
    LedgerAt n b K begun known reports none s := ⟨h, nofun⟩

/-- One level deeper a parser keeps what it keeps anyway, if the depth does not matter. -/
theorem contract_nested {inv : ParserState → Prop} {p : Parser α}
    (hdepth : ∀ s depth, inv s → inv { s with depth })
    (h : Contract inv p (fun _ => inv) fun _ _ => True) :
    Contract inv (Parser.nested p) (fun _ => inv) fun _ _ => True := by
  have hset (f : Nat → Nat) : Contract inv (modify fun s => { s with depth := f s.depth } : Parser Unit)
      (fun _ => inv) fun _ _ => True := fun s hs => hdepth s _ hs
  have hget : Contract inv (get : Parser ParserState) (fun _ => inv) fun _ _ => True := fun _ hs => hs
  have hstop (code : ErrorCode) (offset : Nat) (message : String) :
      Contract inv (fatal code offset message : Parser Unit) (fun _ _ => False) fun _ _ => True :=
    fun _ _ => trivial
  refine (hset (· + 1)).bind fun _ => hget.bind fun s => Contract.ite (fun _ => ?_) fun _ => ?_
  · exact (hstop _ _ _).bind fun _ _ hs => hs.elim
  · exact h.bind fun a => (hset (· - 1)).bind fun _ _ hs => hs

/-- What is composed of plain steps leaves the ledger alone. -/
theorem Composed.keeps_ledger {p : Parser α} {place : Option Matcher.Mark} (h : Composed K place p)
    (hbegun : ∀ o ∈ begun, o < b) (hK : ∀ o, K o → b ≤ o) :
    Contract (LedgerAt n b K begun known reports place) p
      (fun _ => ParserState.Ledger n b K begun known reports) fun _ _ => True := by
  induction h with
  | pure a => exact fun _ hs => hs.1
  | bind _ _ ihp ihn =>
    exact (ihp hK).bind fun a => Contract.weaken (ihn a hK) (fun _ hs => ledgerAt_none hs) fun _ _ hs => hs
  | stop d => exact fun _ _ => trivial
  | exhausted => exact fun _ _ => trivial
  | ask _ ih => exact fun s hs => ih s.steps s.module hK s hs
  | observe f => exact fun s hs => hs.1.altered rfl rfl (by funext k; cases k <;> rfl)
  | eat r => exact fun s hs => ledger_scan (Order.passes_eat r) s hs.1
  | peek r => exact fun s hs => ledger_scan (Order.passes_peek r) s hs.1
  | lexeme hwithin => exact fun s hs => ledger_scan (Order.passes_lexeme hwithin) s hs.1
  | atEnd => exact fun s hs => ledger_scan Order.passes_atEnd s hs.1
  | goto state => exact fun s hs => hs.1.moved fun x hx => ⟨hx.size, hx.place⟩
  | nested _ ih =>
    refine Contract.weaken (contract_nested ?_ ?_) (fun _ hs => hs.1) fun _ _ hs => hs
    · exact fun s depth hs => hs.altered rfl rfl (by funext k; cases k <;> rfl)
    · exact Contract.weaken (ih hK) (fun _ hs => ledgerAt_none hs) fun _ _ hs => hs
  | consult _ => exact fun _ hs => hs.1
  | bindNamespace qualifier uri =>
    exact fun s hs => hs.1.altered rfl rfl
      (ParserState.knows_namespaces ⟨_, _, StaticContext.bind_eq _ _ _⟩)
  | pushFrame => exact fun s hs => hs.1.altered rfl rfl (ParserState.knows_namespaces ⟨_, _, rfl⟩)
  | popFrame =>
    exact fun s hs => hs.1.altered rfl rfl (ParserState.knows_namespaces s.context.exists_popFrame)
  | record hcode offset message =>
    intro s hs
    have hother := ErrorCode.isInner_other hcode
    exact hs.1.noted_other (fun hm => absurd hm hother.2) (Diagnostic.report?_of_other hother.1 hother.2 _)
  | recordMalformed ho message =>
    intro s hs
    refine hs.1.noted_other (fun _ => hs.1.passed _ ho) ?_
    rw [Diagnostic.report?, if_neg]
    rintro (⟨⟨⟩⟩ | ⟨-, hmem⟩)
    exact absurd (hbegun _ hmem) (Nat.not_lt.2 (hK _ ho))
  | @ifTook _ K r hr yes no _ _ ihy ihn =>
    intro s hs
    have heat := ledgerAt_eat none r s hs
    change Ends _ _ ((Parser.eat r >>= _) s)
    cases hr' : Parser.eat r s with
    | error e s' =>
      rw [bind_of_error hr']
      trivial
    | ok matched s' =>
      rw [hr'] at heat
      rw [bind_of_ok hr']
      cases matched with
      | false => exact ihn hK s' heat
      | true =>
        have htook (x : Nat) (hx : s.scan.Behind n x) : s'.scan.Took n x :=
          Contract.of_ok (Order.leads_eat hr) hx hr'
        have hplace := (htook b hs.1.behind).start
        have hK' : ∀ o, o = s'.scan.tokenStart ∨ K o → b ≤ o := by
          rintro o (rfl | ho)
          · exact hplace
          · exact hK o ho
        have hledger : s'.Ledger n b (fun o => o = s'.scan.tokenStart ∨ K o) begun known reports := by
          refine ⟨heat.1.behind, ?_, heat.1.malformed, heat.1.known, heat.1.reports⟩
          rintro o (rfl | ho)
          · exact (htook b hs.1.behind).behind
          · exact heat.1.passed o ho
        refine Contract.weaken (ihy s'.scan.tokenStart hK') (fun _ hs => hs) (fun _ s hs => ?_) s'
          (ledgerAt_none hledger)
        exact { hs with passed := fun o ho => hs.passed o (.inr ho) }
  | mark _ ih =>
    refine fun s hs => ih s.scan.mark hK s ⟨hs.1, ?_⟩
    rintro _ ⟨⟩
    exact hs.1.moved fun x hx => ⟨hx.size, hx.place⟩
  | tryFirst table _ ih => exact (ledgerAt_eatFirst _ table).bind fun found => ih found hK
  | tryEat _ _ ihy ihn =>
    exact (ledgerAt_eat _ _).bind fun _ => Contract.ite (fun _ => ihy hK) fun _ => ihn hK
  | restore _ ih => exact fun s hs => ih hK _ (ledgerAt_none (hs.2 _ rfl))
  | forget _ ih => exact fun s hs => ih hK s (ledgerAt_none hs.1)

end Parser

end XQuerySyntax
