import XQuerySyntax.Proofs.Composed.Expr
import XQuerySyntax.Proofs.Composed.Ledger

/-! Declarations and the ledger. Each declaration looks its keys up one after the other: a key that is known
is reported where the declaration begins, and the others are known from then on. -/

namespace XQuerySyntax

/-- The reports of keys that are given again by a declaration. -/
def repetitions (known keys : List DeclarationKey) (offset : Nat) : List (ErrorCode × Nat) :=
  (repeatedKeys known keys).map fun k => (k.repetition, offset)

theorem repetitions_append (known ks ks' : List DeclarationKey) (offset : Nat) :
    repetitions known (ks ++ ks') offset =
      repetitions known ks offset ++ repetitions (ks.reverse ++ known) ks' offset := by
  rw [repetitions, repeatedKeys_append, List.map_append]
  rfl

theorem repetitions_of_mem {known : List DeclarationKey} {k : DeclarationKey} (h : k ∈ known) (offset : Nat) :
    repetitions known [k] offset = [(k.repetition, offset)] := by
  simp [repetitions, repeatedKeys, h]

theorem repetitions_of_not_mem {known : List DeclarationKey} {k : DeclarationKey} (h : k ∉ known) (offset : Nat) :
    repetitions known [k] offset = [] := by
  simp [repetitions, repeatedKeys, h]

/-- The ledger where nothing is reported that can be passed over. -/
abbrev ParserState.Ledgered (n b : Nat) (begun : List Nat) (known : List DeclarationKey)
    (reports : List (ErrorCode × Nat)) (s : ParserState) : Prop :=
  s.Ledger n b (fun _ => False) begun known reports

/-- A change of the context makes a key known, and says whether it is new. -/
def Adds (k : DeclarationKey) (f : StaticContext → Bool × StaticContext) : Prop :=
  ∀ s : ParserState,
    if s.knows k then f s.context = (false, s.context)
    else (f s.context).1 = true ∧ ∀ k', ({ s with context := (f s.context).2 } : ParserState).knows k' = true ↔
      k' = k ∨ s.knows k' = true

theorem has_put {κ ν : Type} [DecidableEq κ] (t : Table κ ν) (k k' : κ) (v : ν) :
    (t.put k v).has k' = true ↔ k' = k ∨ t.has k' = true := by
  rw [Table.has, Table.has, Table.get?_put]
  by_cases h : k = k'
  · simp [h]
  · simp [h, Ne.symm h]

/-- Something is put into the context unless it is there. -/
theorem adds_of {k : DeclarationKey} {there : StaticContext → Bool} {put : StaticContext → StaticContext}
    (hthere : ∀ s : ParserState, s.knows k = there s.context)
    (hput : ∀ (s : ParserState) (k' : DeclarationKey),
      ({ s with context := put s.context } : ParserState).knows k' = true ↔ k' = k ∨ s.knows k' = true) :
    Adds k fun c => if there c then (false, c) else (true, put c) := by
  intro s
  rw [hthere]
  by_cases h : there s.context = true
  · simp only [if_pos h]
  · simp only [if_neg h]
    exact ⟨trivial, hput s⟩

theorem adds_claim (setter : Setter) : Adds (.setting setter) (·.claim setter) := by
  refine adds_of (fun _ => rfl) fun s k' => ?_
  cases k' with
  | setting other =>
    change (s.context.declared ++ [setter]).contains other = true ↔ _
    simp [ParserState.knows, StaticContext.isDeclared, or_comm]
  | _ => exact ⟨.inr, fun h => h.resolve_left nofun⟩

theorem adds_addDecimalFormat (name : Option ExpandedName) (format : DecimalFormat) :
    Adds (.decimalFormat name) (·.addDecimalFormat name format) := by
  refine adds_of (fun _ => rfl) fun s k' => ?_
  cases k' with
  | decimalFormat other => exact (has_put _ _ _ _).trans (by rw [DeclarationKey.decimalFormat.injEq]; rfl)
  | _ => exact ⟨.inr, fun h => h.resolve_left nofun⟩

theorem adds_addModuleImport (uri : String) (locations : List String) :
    Adds (.moduleNamespace uri) (·.addModuleImport uri locations) := by
  refine adds_of (fun _ => rfl) fun s k' => ?_
  cases k' with
  | moduleNamespace other => exact (has_put _ _ _ _).trans (by rw [DeclarationKey.moduleNamespace.injEq]; rfl)
  | _ => exact ⟨.inr, fun h => h.resolve_left nofun⟩

theorem adds_addSchemaImport (uri : String) (locations : List String) :
    Adds (.schemaNamespace uri) (·.addSchemaImport uri locations) := by
  refine adds_of (fun _ => rfl) fun s k' => ?_
  cases k' with
  | schemaNamespace other => exact (has_put _ _ _ _).trans (by rw [DeclarationKey.schemaNamespace.injEq]; rfl)
  | _ => exact ⟨.inr, fun h => h.resolve_left nofun⟩

theorem adds_declareVariable (v : VariableSignature) :
    Adds (.variableName v.name.expanded) (·.declareVariable v) := by
  refine adds_of (fun _ => rfl) fun s k' => ?_
  cases k' with
  | variableName other =>
    change (List.find? _ (s.context.variableSignatures ++ [v])).isSome = true ↔ _ ∨
      (List.find? _ s.context.variableSignatures).isSome = true
    rw [List.find?_append, Option.isSome_or, Bool.or_eq_true, or_comm, DeclarationKey.variableName.injEq]
    exact or_congr_left (by simp [List.find?_singleton, eq_comm (a := other)])
  | _ => exact ⟨.inr, fun h => h.resolve_left nofun⟩

theorem adds_declareFunction (f : FunctionSignature) :
    Adds (.functionName f.name.expanded f.arity) (·.declareFunction f) := by
  refine adds_of (fun _ => rfl) fun s k' => ?_
  cases k' with
  | functionName other arity =>
    change (List.find? _ (s.context.functionSignatures ++ [f])).isSome = true ↔ _ ∨
      (List.find? _ s.context.functionSignatures).isSome = true
    rw [List.find?_append, Option.isSome_or, Bool.or_eq_true, or_comm, DeclarationKey.functionName.injEq]
    exact or_congr_left (by simp [List.find?_singleton, eq_comm (a := other), eq_comm (a := arity)])
  | _ => exact ⟨.inr, fun h => h.resolve_left nofun⟩

open XQuerySyntax.Parser XQuerySyntax.Grammar

variable {α β : Type} {n b offset : Nat} {begun : List Nat} {known done : List DeclarationKey}
  {reports : List (ErrorCode × Nat)} {p : Parser α} {next : α → Parser β} {keys : α → List DeclarationKey}
  {keys' : β → List DeclarationKey} {good : α → Prop} {good' : β → Prop}

namespace Repetition

/-- Between declarations the parser leaves the ledger alone. -/
def Leaves (p : Parser α) : Prop :=
  ∀ n b begun known reports, (∀ o ∈ begun, o < b) →
    Contract (ParserState.Ledgered n b begun known reports) p
      (fun _ => ParserState.Ledgered n b begun known reports) fun _ _ => True

/-- With some keys of a declaration looked up, the parser looks up the rest and gives something good. -/
def Declares (keys : α → List DeclarationKey) (good : α → Prop) (done : List DeclarationKey) (offset : Nat)
    (p : Parser α) : Prop :=
  ∀ n b begun known reports, (∀ o ∈ begun, o < b) →
    Contract
      (ParserState.Ledgered n b begun (done.reverse ++ known) (reports ++ repetitions known done offset)) p
      (fun a s => good a ∧
        s.Ledgered n b begun ((keys a).reverse ++ known) (reports ++ repetitions known (keys a) offset))
      fun _ _ => True

end Repetition

open Repetition

/-- What is composed of plain steps leaves the ledger alone. -/
theorem Parser.Plain.leaves (h : p.Plain) : Leaves p := fun _ _ _ _ _ hbegun =>
  Contract.weaken ((h fun _ => False).keeps_ledger hbegun nofun) (fun _ hs => ledgerAt_none hs) fun _ _ hs => hs

theorem Repetition.Leaves.declares (h : Leaves p) (hn : ∀ a, Declares keys' good' done offset (next a)) :
    Declares keys' good' done offset (p >>= next) :=
  fun _ _ _ _ _ hbegun => (h _ _ _ _ _ hbegun).bind fun a => hn a _ _ _ _ _ hbegun

theorem Parser.Plain.declares (h : p.Plain) (hn : ∀ a, Declares keys' good' done offset (next a)) :
    Declares keys' good' done offset (p >>= next) := h.leaves.declares hn

namespace Repetition

/-! ### Steps that leave the ledger alone -/

theorem Leaves.seq (h : Leaves p) (hn : ∀ a, Leaves (next a)) : Leaves (p >>= next) :=
  fun _ _ _ _ _ hbegun => (h _ _ _ _ _ hbegun).bind fun a => hn a _ _ _ _ _ hbegun

theorem leaves_ite {c : Prop} [Decidable c] {no : Parser α} (hy : Leaves p) (hn : Leaves no) :
    Leaves (if c then p else no) := by
  split
  · exact hy
  · exact hn

theorem leaves_pure (a : α) : Leaves (pure a : Parser α) := (plain_pure a).leaves

theorem leaves_note {d : Diagnostic} (h : d.code.isRepetition = false ∧ d.code ≠ .malformed) : Leaves (note d) :=
  fun _ _ _ _ _ _ _ hs => hs.noted_other (fun hm => absurd hm h.2) (Diagnostic.report?_of_other h.1 h.2 _)

theorem leaves_record {code : ErrorCode} (h : code.isRepetition = false ∧ code ≠ .malformed) (offset : Nat)
    (message : String) : Leaves (record code offset message) := leaves_note h

theorem leaves_warn {code : ErrorCode} (h : code.isRepetition = false ∧ code ≠ .malformed) (offset : Nat)
    (message : String) : Leaves (warn code offset message) := leaves_note h

theorem leaves_amend {f : StaticContext → StaticContext}
    (h : ∀ s : ParserState, ({ s with context := f s.context } : ParserState).knows = s.knows) :
    Leaves (amend f) := fun _ _ _ _ _ _ s hs => hs.altered rfl rfl (h s)

theorem leaves_checkLibraryNamespace (name : QName) (what : String) (offset : Nat) :
    Leaves (checkLibraryNamespace name what offset) := by
  have hget : Leaves (get : Parser ParserState) := fun _ _ _ _ _ _ _ hs => hs
  refine hget.seq fun s => ?_
  split
  · exact leaves_pure _
  · exact leaves_ite (leaves_record (by decide) _ _) (leaves_pure _)

/-! ### Composition -/

theorem declares_pure {a : α} (hkeys : keys a = done) (hgood : good a) :
    Declares keys good done offset (pure a) := by
  intro n b begun known reports _ s hs
  rw [← hkeys] at hs
  exact ⟨hgood, hs⟩

theorem declares_ite {c : Prop} [Decidable c] {no : Parser α} (hy : Declares keys good done offset p)
    (hn : Declares keys good done offset no) : Declares keys good done offset (if c then p else no) := by
  split
  · exact hy
  · exact hn

theorem declares_ifEat {r : Rule} {yes no : Parser α} (hy : Declares keys good done offset yes)
    (hn : Declares keys good done offset no) :
    Declares keys good done offset (eat r >>= fun matched => if matched then yes else no) :=
  (plain_eat r).declares fun _ => declares_ite hy hn

/-- What has been declared goes on into an answer with the same keys. -/
theorem Declares.pass (h : Declares keys good [] offset p)
    (hn : ∀ a, good a → Declares keys' good' (keys a) offset (next a)) :
    Declares keys' good' [] offset (p >>= next) := by
  intro n b begun known reports hbegun
  refine Contract.bind (h n b begun known reports hbegun) fun a s hs => ?_
  exact hn a hs.1 n b begun known reports hbegun s hs.2

/-- Nothing comes behind an error that stops. -/
theorem declares_unexpected (expected : String) :
    Declares keys' good' done offset ((unexpected expected : Parser α) >>= next) := by
  intro n b begun known reports _
  have hstop : Contract
      (ParserState.Ledgered n b begun (done.reverse ++ known) (reports ++ repetitions known done offset))
      (unexpected expected : Parser α) (fun _ _ => False) fun _ _ => True := fun _ _ => trivial
  exact hstop.bind fun _ _ hs => hs.elim

/-! ### Keys -/

/-- A key is looked up, and the parser goes on with the next ones. -/
theorem contract_lookUp {k : DeclarationKey} {isNew : Parser Bool}
    (h : ∀ s : ParserState, ∃ s', isNew s = .ok (!s.knows k) s' ∧ s'.scan = s.scan ∧ s'.recorded = s.recorded ∧
      ∀ k', s'.knows k' = true ↔ k' = k ∨ s.knows k' = true)
    (message : String) {next : Bool → Parser β}
    (hn : ∀ isNew, Declares keys' good' (done ++ [k]) offset (next isNew)) :
    Declares keys' good' done offset (isNew >>= fun isNew =>
      if !isNew then record k.repetition offset message >>= fun _ => next isNew else next isNew) := by
  intro n b begun known reports hbegun s hs
  obtain ⟨s', hs', hscan, hrecorded, hknows⟩ := h s
  rw [bind_of_ok hs']
  have hdone : (done ++ [k]).reverse ++ known = k :: (done.reverse ++ known) := by simp
  have hnext (isNew : Bool) := hn isNew n b begun known reports hbegun
  rw [hdone, repetitions_append, ← List.append_assoc] at hnext
  have hmembers (k' : DeclarationKey) : s'.knows k' = true ↔ k' ∈ k :: (done.reverse ++ known) := by
    rw [hknows, hs.known, List.mem_cons]
  have hstill (m : List (ErrorCode × Nat))
      (hm : s.Ledgered n b begun (done.reverse ++ known) m) :
      s'.Ledgered n b begun (k :: (done.reverse ++ known)) m := by
    refine ⟨?_, nofun, ?_, hmembers, ?_⟩
    · rw [hscan]; exact hm.behind
    · rw [hscan, hrecorded]; exact hm.malformed
    · rw [hrecorded]; exact hm.reports
  by_cases hk : k ∈ done.reverse ++ known
  · rw [(hs.known k).2 hk, Bool.not_true, Bool.not_false, if_pos rfl]
    rw [repetitions_of_mem hk] at hnext
    have hnoted := (hstill _ hs).noted (d := .error k.repetition offset message)
      (fun hm => absurd hm (by
        intro hm
        have := k.isRepetition_repetition
        rw [show k.repetition = .malformed from hm] at this
        cases this))
    have hreport : (Diagnostic.error k.repetition offset message).report? begun = some (k.repetition, offset) :=
      if_pos (.inl k.isRepetition_repetition)
    rw [hreport] at hnoted
    exact hnext _ _ hnoted
  · have hunknown : s.knows k = false := Bool.eq_false_iff.2 fun hk' => hk ((hs.known k).1 hk')
    rw [hunknown, Bool.not_false, Bool.not_true, if_neg (by decide)]
    rw [repetitions_of_not_mem hk, List.append_nil] at hnext
    exact hnext _ _ (hstill _ hs)

theorem declares_amendGet {k : DeclarationKey} {f : StaticContext → Bool × StaticContext} (hf : Adds k f)
    (message : String) {next : Bool → Parser β}
    (hn : ∀ isNew, Declares keys' good' (done ++ [k]) offset (next isNew)) :
    Declares keys' good' done offset (amendGet f >>= fun isNew =>
      if !isNew then record k.repetition offset message >>= fun _ => next isNew else next isNew) := by
  refine contract_lookUp (fun s => ⟨{ s with context := (f s.context).2 }, ?_, rfl, rfl, ?_⟩) message hn
  · have hs := hf s
    change EStateM.Result.ok (f s.context).1 _ = _
    by_cases hk : s.knows k = true
    · rw [if_pos hk] at hs
      rw [hs, hk]
      rfl
    · rw [if_neg hk] at hs
      rw [hs.1, Bool.eq_false_iff.2 hk]
      rfl
  · intro k'
    have hs := hf s
    by_cases hk : s.knows k = true
    · rw [if_pos hk] at hs
      rw [hs]
      exact ⟨.inr, fun h => h.elim (fun h => h ▸ hk) id⟩
    · rw [if_neg hk] at hs
      exact hs.2 k'

/-- A step and another one that may come behind it, in either order of brackets. -/
theorem ite_bind {c : Prop} [Decidable c] (yes : Parser PUnit) (next : Parser β) :
    ((if c then yes else pure PUnit.unit) >>= fun _ => next) = if c then yes >>= fun _ => next else next := by
  split
  · rfl
  · rfl

theorem declares_claim (setter : Setter) {next : Parser β}
    (hn : Declares keys' good' (done ++ [DeclarationKey.setting setter]) offset next) :
    Declares keys' good' done offset (claim setter setter.repetition offset >>= fun _ => next) := by
  have h := declares_amendGet (adds_claim setter) (setter.text ++ " is declared more than once") fun _ => hn
  have heq : (claim setter setter.repetition offset >>= fun _ => next) =
      amendGet (·.claim setter) >>= fun isNew =>
        if !isNew then record (DeclarationKey.setting setter).repetition offset
          (setter.text ++ " is declared more than once") >>= fun _ => next else next := by
    rw [claim, bind_assoc]
    exact congrArg _ (funext fun isNew => ite_bind _ next)
  rwa [heq]

theorem declares_claimQualifier (q : String) {next : Parser β}
    (hn : Declares keys' good' (done ++ [DeclarationKey.qualifier q]) offset next) :
    Declares keys' good' done offset (claimQualifier q offset >>= fun _ => next) := by
  let isNew : Parser Bool := fun s =>
    if s.declaredPrefixes.contains q then .ok false s
    else .ok true { s with declaredPrefixes := q :: s.declaredPrefixes }
  have hnew (s : ParserState) : ∃ s', isNew s = .ok (!s.knows (.qualifier q)) s' ∧ s'.scan = s.scan ∧
      s'.recorded = s.recorded ∧ ∀ k', s'.knows k' = true ↔ k' = .qualifier q ∨ s.knows k' = true := by
    by_cases hq : s.declaredPrefixes.contains q = true
    · have hknown : s.knows (.qualifier q) = true := hq
      refine ⟨s, ?_, rfl, rfl, fun k' => ⟨.inr, fun h => h.elim (fun h => h ▸ hknown) id⟩⟩
      rw [hknown]
      exact if_pos hq
    · have hunknown : s.knows (.qualifier q) = false := Bool.eq_false_iff.2 hq
      refine ⟨{ s with declaredPrefixes := q :: s.declaredPrefixes }, ?_, rfl, rfl, fun k' => ?_⟩
      · rw [hunknown]
        exact if_neg hq
      · cases k' with
        | qualifier other => simp [ParserState.knows]
        | _ => exact ⟨.inr, fun h => h.resolve_left nofun⟩
  have heq : (claimQualifier q offset >>= fun _ => next) = isNew >>= fun isNew =>
      if !isNew then record (DeclarationKey.qualifier q).repetition offset
        ("namespace prefix '" ++ q ++ "' is declared more than once") >>= fun _ => next else next := by
    funext s
    by_cases hq : s.declaredPrefixes.contains q = true
    · have hclaim : claimQualifier q offset s = record .duplicateNamespacePrefix offset
          ("namespace prefix '" ++ q ++ "' is declared more than once") s := by
        change (if s.declaredPrefixes.contains q then _ else _ : Parser Unit) s = _
        rw [if_pos hq]
      have hrecord : (claimQualifier q offset >>= fun _ => next) s = (record .duplicateNamespacePrefix offset
          ("namespace prefix '" ++ q ++ "' is declared more than once") >>= fun _ => next) s := by
        change EStateM.bind _ _ s = EStateM.bind _ _ s
        rw [EStateM.bind, hclaim, EStateM.bind]
      rw [hrecord, bind_of_ok (show isNew s = .ok false s from if_pos hq)]
      rfl
    · have hclaim : claimQualifier q offset s = .ok () { s with declaredPrefixes := q :: s.declaredPrefixes } := by
        change (if s.declaredPrefixes.contains q then _ else _ : Parser Unit) s = _
        rw [if_neg hq]
        rfl
      rw [bind_of_ok hclaim, bind_of_ok (show isNew s = .ok true _ from if_neg hq)]
      rfl
  rw [heq]
  exact contract_lookUp hnew _ fun _ => hn

/-! ### Settings -/

/-- A declaration of one part of a prolog, begun at a place. -/
abbrev DeclaresKind (part : Section) (offset : Nat) (p : Parser DeclarationKind) : Prop :=
  Declares DeclarationKind.keys (fun kind => kind.part = part) [] offset p

/-- A declaration that may not be there. -/
abbrev DeclaresOptional (part : Section) (offset : Nat) (p : Parser (Option DeclarationKind)) : Prop :=
  Declares (fun found => found.elim [] DeclarationKind.keys) (fun found => ∀ kind ∈ found, kind.part = part) []
    offset p

variable {part : Section}

theorem Declares.some {p : Parser DeclarationKind} (h : DeclaresKind part offset p) :
    DeclaresOptional part offset (do return some (← p)) := by
  refine h.pass fun kind hkind => declares_pure rfl ?_
  rintro _ ⟨⟩
  exact hkind

theorem declares_none : DeclaresOptional part offset (pure none) :=
  declares_pure rfl fun _ h => absurd h (Option.not_mem_none _)

theorem plain_eitherWord (first second : Rule × α) : Plain (eitherWord first second) :=
  plain_ifEat (plain_pure _) ((plain_expect _).seq fun _ => plain_pure _)

/-- A setting that is claimed and then put into the static context. -/
theorem declares_setting (setter : Setter) {f : StaticContext → StaticContext} {kind : DeclarationKind}
    (hkeys : kind.keys = [.setting setter]) (hpart : kind.part = part)
    (hf : ∀ s : ParserState, ({ s with context := f s.context } : ParserState).knows = s.knows) :
    DeclaresKind part offset (do
      claim setter setter.repetition offset
      amend f
      return kind) :=
  declares_claim setter ((leaves_amend hf).declares fun _ => declares_pure hkeys hpart)

theorem declares_copyNamespacesDecl (offset : Nat) : DeclaresKind .setup offset (copyNamespacesDecl offset) :=
  (plain_eitherWord _ _).declares fun _ => (plain_expect _).declares fun _ =>
    (plain_eitherWord _ _).declares fun _ =>
      declares_setting .copyNamespaces rfl rfl fun s => by funext k; cases k <;> rfl

theorem declares_revalidationDecl (offset : Nat) : DeclaresKind .setup offset (revalidationDecl offset) := by
  have hmode (mode : ValidationMode) : DeclaresKind .setup offset (do
      claim .revalidation .duplicateRevalidation offset
      amend fun c => { c with revalidation := some mode }
      return .revalidation mode) :=
    declares_setting .revalidation rfl rfl fun s => by funext k; cases k <;> rfl
  refine declares_ifEat ((plain_pure _).declares hmode) ((plain_eitherWord _ _).declares hmode)

theorem leaves_addFormatProperty (format : DecimalFormat) : Leaves (addFormatProperty format) := by
  refine (plain_eat _).leaves.seq fun _ => leaves_ite (leaves_pure _) ?_
  refine (plain_observe _).leaves.seq fun offset => (plain_observe _).leaves.seq fun name => ?_
  refine (plain_observe _).leaves.seq fun value => ?_
  dsimp only
  split
  · exact (plain_fatal _ _ _).leaves
  · refine leaves_ite ((leaves_record (by decide) _ _).seq fun _ => leaves_pure _) ?_
    exact leaves_ite ((leaves_record (by decide) _ _).seq fun _ => leaves_pure _) (leaves_pure _)

theorem leaves_iterate {σ : Type} {step : σ → Parser (σ ⊕ α)} (h : ∀ a, Leaves (step a)) (init : σ) :
    Leaves (iterate step init) := by
  have hget : Leaves (get : Parser ParserState) := fun _ _ _ _ _ _ _ hs => hs
  refine hget.seq fun s => ?_
  induction s.steps generalizing init with
  | zero => exact plain_exhausted.leaves
  | succ steps ih =>
    refine (h init).seq ?_
    rintro (next | result)
    · exact ih next
    · exact leaves_pure result

theorem declares_decimalFormatDecl (name : Option QName) (offset : Nat) :
    DeclaresKind .setup offset (decimalFormatDecl name offset) :=
  (leaves_iterate leaves_addFormatProperty _).declares fun format =>
    declares_amendGet (adds_addDecimalFormat _ format) _ fun _ => declares_pure rfl rfl

theorem declares_defaultNamespaceDecl (kind : DefaultNamespaceKind) (offset : Nat) :
    DeclaresKind .setup offset (defaultNamespaceDecl kind offset) := by
  refine (plain_observe _).declares fun uri => ?_
  cases kind with
  | element =>
    refine declares_claim .defaultElementNamespace ?_
    refine (plain_checkDefaultNamespace uri offset).declares fun _ => ?_
    exact (plain_bind "" uri).declares fun _ => declares_pure rfl rfl
  | function =>
    refine declares_claim .defaultFunctionNamespace ?_
    refine (plain_checkDefaultNamespace uri offset).declares fun _ => ?_
    refine (leaves_amend fun s => ?_).declares fun _ => declares_pure rfl rfl
    funext k
    cases k <;> rfl

theorem declares_namespaceDecl (offset : Nat) : DeclaresKind .setup offset (namespaceDecl offset) := by
  refine (plain_expect _).declares fun _ => (plain_observe _).declares fun qualifier => ?_
  refine (plain_observe _).declares fun uri => (plain_checkBinding qualifier uri offset).declares fun _ => ?_
  refine declares_claimQualifier qualifier ((plain_bind qualifier uri).declares fun _ => ?_)
  exact declares_pure rfl rfl

theorem declares_optionDecl (offset : Nat) : DeclaresKind .declarations offset (optionDecl offset) := by
  refine (plain_observe _).declares fun lexical => (plain_observe _).declares fun value => ?_
  refine (plain_plainName lexical offset).declares fun name => ?_
  refine (leaves_amend fun s => ?_).declares fun _ => declares_pure rfl rfl
  funext k
  cases k <;> rfl

theorem declares_ftOptionDecl (offset : Nat) : DeclaresKind .setup offset ftOptionDecl := by
  refine plain_matchOptions.declares fun options => declares_ite (declares_unexpected _) ?_
  refine (leaves_amend fun s => ?_).declares fun _ => declares_pure rfl rfl
  funext k
  cases k <;> rfl

theorem declares_setterDecl (offset : Nat) : DeclaresOptional .setup offset (setterDecl offset) := by
  refine declares_ifEat (Declares.some ?_) (declares_ifEat (Declares.some ?_) (declares_ifEat (Declares.some ?_)
    (declares_ifEat (Declares.some ?_) (declares_ifEat (Declares.some ?_) (declares_ifEat (Declares.some ?_)
    (declares_ifEat (declares_copyNamespacesDecl offset).some
    (declares_ifEat (declares_decimalFormatDecl none offset).some (declares_ifEat ?_
    (declares_ifEat (declares_defaultNamespaceDecl _ offset).some
    (declares_ifEat (declares_defaultNamespaceDecl _ offset).some
    (declares_ifEat (declares_namespaceDecl offset).some declares_none)))))))))))
  · exact (plain_eitherWord _ _).declares fun _ =>
      declares_setting .boundarySpace rfl rfl fun s => by funext k; cases k <;> rfl
  · exact (plain_observe _).declares fun _ =>
      declares_setting .defaultCollation rfl rfl fun s => by funext k; cases k <;> rfl
  · exact (plain_observe _).declares fun _ =>
      declares_setting .baseUri rfl rfl fun s => by funext k; cases k <;> rfl
  · exact (plain_eitherWord _ _).declares fun _ =>
      declares_setting .construction rfl rfl fun s => by funext k; cases k <;> rfl
  · exact (plain_eitherWord _ _).declares fun _ =>
      declares_setting .ordering rfl rfl fun s => by funext k; cases k <;> rfl
  · exact (plain_eitherWord _ _).declares fun _ =>
      declares_setting .emptyOrder rfl rfl fun s => by funext k; cases k <;> rfl
  · refine (plain_observe _).declares fun lexical => (plain_plainName lexical offset).declares fun name => ?_
    exact (declares_decimalFormatDecl (some name) offset).some

/-! ### Components -/

theorem plain_initialValue : Plain initialValue :=
  plain_ifEat (plain_exprSingle.seq fun _ => plain_pure _)
    (plain_ifEat ((plain_whenEats plain_exprSingle).seq fun _ => plain_pure _) (plain_unexpected _))

theorem declares_variableDecl (annotations : List AnnotationDecl) (offset : Nat) :
    Declares (fun d => (DeclarationKind.variableDecl d).keys) (fun _ => True) [] offset
      (variableDecl annotations offset) := by
  refine (plain_expect _).declares fun _ => (plain_observe _).declares fun place => ?_
  refine (plain_observe _).declares fun lexical => (plain_plainName lexical place).declares fun name => ?_
  refine (leaves_checkLibraryNamespace name _ place).declares fun _ => plain_declaredType.declares fun type => ?_
  refine plain_initialValue.declares fun ⟨value, isExternal⟩ => ?_
  exact declares_amendGet (adds_declareVariable _) _ fun _ => declares_pure rfl trivial

theorem declares_contextItemDecl (offset : Nat) :
    DeclaresKind .declarations offset (contextItemDecl offset) :=
  plain_declaredType.declares fun _ => plain_initialValue.declares fun ⟨_, _⟩ =>
    declares_setting .contextItem rfl rfl fun s => by funext k; cases k <;> rfl

theorem plain_declaredBody (kind : FunctionKind) : Plain (declaredBody kind) := by
  refine plain_ifEat (plain_pure none) ((plain_expect _).seq fun _ => (plain_observe _).seq fun place => ?_)
  exact (plain_functionBody plain_exprSingle _ place).some

theorem declares_functionDecl (annotations : List AnnotationDecl) (kind : FunctionKind) (offset : Nat) :
    Declares (fun d => (DeclarationKind.functionDecl d).keys) (fun _ => True) [] offset
      (functionDecl annotations kind offset) := by
  refine (plain_observe _).declares fun place => (plain_observe _).declares fun lexical => ?_
  refine (plain_functionName lexical place).declares fun name => ?_
  extract_lets rest
  have hrest (a : Unit) : Declares (fun d => (DeclarationKind.functionDecl d).keys) (fun _ => True) [] offset
      (rest a) := by
    refine (leaves_checkLibraryNamespace name _ place).declares fun _ => (plain_expect _).declares fun _ => ?_
    refine plain_paramList.declares fun params => plain_declaredType.declares fun type => ?_
    refine (plain_declaredBody kind).declares fun body => ?_
    refine declares_amendGet (adds_declareFunction _) _ fun _ => declares_pure ?_ trivial
    change [DeclarationKey.functionName name.expanded params.length] = _
    rw [FunctionSignature.arity, List.length_map]
    rfl
  split
  · exact declares_ite ((leaves_record (by decide) _ _).declares fun _ => hrest ()) (hrest ())
  · exact hrest ()

theorem declares_componentDecl (offset : Nat) :
    DeclaresOptional .declarations offset (componentDecl offset) := by
  have hkind : Plain functionKind := (plain_eatFirst _).seq fun _ => plain_pure _
  refine plain_annotationList.declares fun annotations => hkind.declares fun kind => ?_
  refine declares_ifEat ?_ (declares_ifEat ?_ (declares_ite (declares_unexpected _) declares_none))
  · refine (declares_variableDecl annotations offset).pass fun d _ => declares_pure rfl ?_
    rintro _ ⟨⟩
    rfl
  · refine (declares_functionDecl annotations kind offset).pass fun d _ => declares_pure rfl ?_
    rintro _ ⟨⟩
    rfl

/-! ### Imports -/

theorem plain_locationHints : Plain locationHints := by
  refine plain_ifEat ((plain_observe _).seq fun first => ?_) (plain_pure _)
  exact (plain_many (plain_whenEats (plain_observe _))).seq fun _ => plain_pure _

theorem declares_bindImport (qualifier : Option String) (uri : String) {next : Parser β}
    (hn : Declares keys' good' (qualifier.toList.map .qualifier) offset next) :
    Declares keys' good' [] offset (bindImport qualifier uri offset >>= fun _ => next) := by
  cases qualifier with
  | none => exact hn
  | some q =>
    simp only [bindImport, bind_assoc]
    refine (plain_checkBinding q uri offset).declares fun _ => ?_
    exact declares_claimQualifier q ((plain_bind q uri).declares fun _ => hn)

theorem declares_schemaImport (offset : Nat) : DeclaresKind .setup offset (schemaImport offset) := by
  refine (plain_whenEats (plain_observe _)).declares fun qualifier => ?_
  have hend (isDefault : Bool) (uri : String) (locations : List String) (done : List DeclarationKey)
      (hdone : (DeclarationKind.schemaImport ⟨qualifier, isDefault, uri, locations⟩).keys =
        done ++ [DeclarationKey.schemaNamespace uri]) :
      Declares DeclarationKind.keys (fun kind => kind.part = .setup) done offset (do
        if !(← amendGet (·.addSchemaImport uri locations)) then
          record .duplicateSchemaImport offset ("schema '" ++ uri ++ "' is imported more than once")
        return DeclarationKind.schemaImport ⟨qualifier, isDefault, uri, locations⟩) :=
    declares_amendGet (adds_addSchemaImport uri locations) _ fun _ => declares_pure hdone rfl
  have hrest (isDefault : Bool) : DeclaresKind .setup offset (do
      expect Terminal.namespaceUri
      let uri ← capturedString 0
      let locations ← locationHints
      bindImport qualifier uri offset
      if isDefault then
        claim .defaultElementNamespace .duplicateDefaultNamespace offset
        amend (·.bind "" uri)
      if !(← amendGet (·.addSchemaImport uri locations)) then
        record .duplicateSchemaImport offset ("schema '" ++ uri ++ "' is imported more than once")
      return DeclarationKind.schemaImport ⟨qualifier, isDefault, uri, locations⟩) := by
    refine (plain_expect _).declares fun _ => (plain_observe _).declares fun uri => ?_
    refine plain_locationHints.declares fun locations => declares_bindImport qualifier uri ?_
    cases isDefault with
    | false => exact hend false uri locations _ (by simp [DeclarationKind.keys_schemaImport])
    | true =>
      refine declares_claim .defaultElementNamespace ((plain_bind "" uri).declares fun _ => ?_)
      exact hend true uri locations _ (by simp [DeclarationKind.keys_schemaImport])
  exact declares_ite ((plain_eat _).declares hrest) ((plain_pure false).declares hrest)

theorem declares_moduleImport (offset : Nat) :
    Declares (fun found => (DeclarationKind.moduleImport found.1).keys) (fun _ => True) [] offset
      (moduleImport offset) := by
  refine (plain_whenEats (plain_observe _)).declares fun qualifier => (plain_expect _).declares fun _ => ?_
  refine (plain_observe _).declares fun uri => plain_locationHints.declares fun locations => ?_
  have hend : Declares (fun found => (DeclarationKind.moduleImport found.1).keys) (fun _ => True) [] offset (do
      bindImport qualifier uri offset
      let isNew ← amendGet (·.addModuleImport uri locations)
      if !isNew then
        record .duplicateModuleImport offset ("module '" ++ uri ++ "' is imported more than once")
      return (ModuleImport.mk qualifier uri locations, isNew)) := by
    refine declares_bindImport qualifier uri ?_
    exact declares_amendGet (adds_addModuleImport uri locations) _ fun isNew =>
      declares_pure (DeclarationKind.keys_moduleImport _) trivial
  exact declares_ite ((leaves_record (by decide) _ _).declares fun _ => hend) hend

/-! ### Heads of declarations -/

/-- A declaration with its part. -/
abbrev DeclaresPart (offset : Nat) (p : Parser (Option (DeclarationKind × Section))) : Prop :=
  Declares (fun found => found.elim [] fun d => d.1.keys) (fun found => ∀ d ∈ found, d.1.part = d.2) [] offset p

theorem declares_declared (offset : Nat) : DeclaresPart offset (declared offset) := by
  have hkind {kind : DeclarationKind} {part : Section} (hpart : kind.part = part) :
      Declares (fun found => found.elim [] fun d : DeclarationKind × Section => d.1.keys)
        (fun found => ∀ d ∈ found, d.1.part = d.2) kind.keys offset (pure (some (kind, part))) := by
    refine declares_pure rfl ?_
    rintro _ ⟨⟩
    exact hpart
  refine (declares_setterDecl offset).pass ?_
  rintro (_ | kind) hpart
  · refine declares_ifEat ?_ (declares_ifEat ?_ (declares_ifEat ?_ (declares_ifEat ?_ ?_)))
    · exact (declares_optionDecl offset).pass fun _ => hkind
    · exact (declares_ftOptionDecl offset).pass fun _ => hkind
    · exact (declares_revalidationDecl offset).pass fun _ => hkind
    · exact (declares_contextItemDecl offset).pass fun _ => hkind
    · refine (declares_componentDecl offset).pass ?_
      rintro (_ | kind) hpart
      · exact declares_pure rfl fun _ h => absurd h (Option.not_mem_none _)
      · exact hkind (hpart kind rfl)
  · exact hkind (hpart kind rfl)

end Repetition

end XQuerySyntax
