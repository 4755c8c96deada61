import XQuerySyntax.Grammar.Module
import XQuerySyntax.Proofs.Contract
import XQuerySyntax.Proofs.Progress.Module
import XQuerySyntax.Proofs.Rollback

/-! What a module asks of its importer. While a module is parsed the importer changes only where it loads
something. What each answer keeps true is true at the end, and the requests can be written down in their
order. -/

namespace XQuerySyntax

open Grammar XQuerySyntax.Parser

variable {σ τ α β : Type}

/-! ### Statements that nothing ends -/

/-- The statement about the importer is true behind the parser, whether it has stopped or not. -/
abbrev Maintains (during : σ → Prop) (p : ModuleParser σ α) : Prop :=
  Contract (fun s => during s.2) p (fun _ s => during s.2) fun _ s => during s.2

namespace Maintains

variable {importer : Importer σ} {during : σ → Prop}

theorem state {p : ModuleParser σ α} (h : Maintains during p) (s : ParserState) {i : σ} (hi : during i) :
    during (p (s, i)).state.2 := by
  have hends := h (s, i) hi
  cases hr : p (s, i) <;> rw [hr] at hends <;> exact hends

/-- What is true behind the first of two parsers is true behind both. -/
theorem rest {p : ModuleParser σ α} {next : α → ModuleParser σ β} (hn : ∀ a, Maintains during (next a))
    {s : ParserState × σ} (h : during (p s).state.2) : during ((p >>= next) s).state.2 := by
  cases hr : p s with
  | ok a s' =>
    rw [hr] at h
    rw [bind_of_ok hr]
    exact (hn a).state s'.1 h
  | error e s' =>
    rw [hr] at h
    rw [bind_of_error hr]
    exact h

theorem pure (a : α) : Maintains during (Pure.pure a) := fun _ hi => hi

theorem get : Maintains during (MonadState.get : ModuleParser σ (ParserState × σ)) := fun _ hi => hi

theorem lift (p : Parser α) : Maintains during (Grammar.lift p) := by
  rintro ⟨s, i⟩ hi
  unfold Grammar.lift
  dsimp only
  cases p s <;> exact hi

theorem loadFrom (h : ∀ location i, during i → during (importer.load location i).2) (uri : String) (offset : Nat)
    (location : String) : Maintains during (loadFrom importer uri offset location) := by
  rintro ⟨s, i⟩ hi
  have hload := h location i hi
  unfold Grammar.loadFrom
  dsimp only
  rcases hr : importer.load location i with ⟨_ | m, i'⟩ <;> rw [hr] at hload
  · exact lift _ (s, i') hload
  · exact lift _ (s, i') hload

theorem loadImport (h : ∀ location i, during i → during (importer.load location i).2) (library : ModuleImport)
    (offset : Nat) : Maintains during (loadImport (some importer) library offset) := by
  refine get.bind fun ⟨s, i⟩ => ?_
  have hloads (locations : List String) : Maintains during (do
      for location in locations do
        Grammar.loadFrom importer library.targetNamespace offset location) :=
    (Contract.forIn (fun location => loadFrom h _ offset location) locations).bind fun _ => pure _
  exact Contract.ite (fun _ => (lift _).bind fun _ => hloads _) fun _ => hloads _

theorem declarationsWithin (h : ∀ location i, during i → during (importer.load location i).2) (n : Nat)
    (part : Section) : Maintains during (declarationsWithin (some importer) n part) := by
  induction n generalizing part with
  | zero => exact lift _
  | succ n ih =>
    refine (lift declarationHead).bind ?_
    rintro (_ | head)
    · exact pure _
    dsimp -zeta only
    extract_lets further rest
    have hfurther (u : Unit) : Maintains during (further u) := (ih _).bind fun _ => pure _
    have hrest (u : Unit) : Maintains during (rest u) :=
      (lift _).bind fun _ => Contract.ite (fun _ => (lift _).bind hfurther) fun _ => hfurther ()
    split
    · exact (loadImport h _ _).bind hrest
    · exact hrest ()

theorem prolog (h : ∀ location i, during i → during (importer.load location i).2) (version : Option VersionDecl) :
    Maintains during (prolog (some importer) version) :=
  get.bind fun _ => (declarationsWithin h _ _).bind fun _ => pure _

theorem moduleUnit (h : ∀ location i, during i → during (importer.load location i).2) (kind : Option ModuleKind)
    (hasLocation : Bool) : Maintains during (moduleUnit (some importer) kind hasLocation) := by
  have hmain (version : Option VersionDecl) : Maintains during (mainModule (some importer) version) :=
    (prolog h version).bind fun _ => (lift _).bind fun _ => (lift _).bind fun _ => pure _
  have hlibrary (version : Option VersionDecl) :
      Maintains during (libraryModule (some importer) hasLocation version) :=
    (lift _).bind fun _ => (prolog h version).bind fun _ => (lift _).bind fun _ => pure _
  refine (lift _).bind fun version => (lift _).bind fun isLibrary => ?_
  rcases kind with _ | _ | _ <;> cases isLibrary
  · exact hmain version
  · exact hlibrary version
  · exact hmain version
  · exact lift _
  · exact hlibrary version
  · exact hlibrary version

end Maintains

/-- What each answer of an importer keeps true, a module keeps true, whether it can be had or not. -/
theorem parseModuleWith_keeps {importer : Importer σ} {during : σ → Prop}
    (h : ∀ location i, during i → during (importer.load location i).2) (kind : Option ModuleKind) (text : String)
    (config : Config) {i : σ} (hi : during i) : during (parseModuleWith (some importer) kind text config i).2 := by
  have hends := (Maintains.moduleUnit h kind config.sourceUri.isSome).state (.ofText text config) hi
  unfold parseModuleWith
  cases hr : moduleUnit (some importer) kind config.sourceUri.isSome (.ofText text config, i) <;>
    rw [hr] at hends <;> exact hends

/-! ### Importers that go along with one another -/

/-- Two importers that find the same locations in states that belong together. Asked for one location they
give the same answer there and their states still belong together, or they have parted for good. -/
structure Importer.GoesWith (R apart : σ → τ → Prop) (I : Importer σ) (J : Importer τ) : Prop where
  locate : ∀ {i j}, R i j → ∀ uri hints id, I.locate uri hints id i = J.locate uri hints id j
  load : ∀ {i j}, R i j → ∀ location,
    ((I.load location i).1 = (J.load location j).1 ∧ R (I.load location i).2 (J.load location j).2) ∨
      apart (I.load location i).2 (J.load location j).2
  left : ∀ {i j}, apart i j → ∀ location, apart (I.load location i).2 j
  right : ∀ {i j}, apart i j → ∀ location, apart i (J.load location j).2

/-- Two parses have ended alike, with importers in states that belong together. -/
inductive EndAlike (R : σ → τ → Prop) :
    EStateM.Result Stop (ParserState × σ) α → EStateM.Result Stop (ParserState × τ) α → Prop
  | ok (a : α) (s : ParserState) {i : σ} {j : τ} (h : R i j) : EndAlike R (.ok a (s, i)) (.ok a (s, j))
  | error (e : Stop) (s : ParserState) {i : σ} {j : τ} (h : R i j) : EndAlike R (.error e (s, i)) (.error e (s, j))

/-- Begun alike, with importers in states that belong together, two parses end alike, unless their importers
have parted. Once they have parted nothing brings them together again. -/
structure GoWith (R apart : σ → τ → Prop) (p : ModuleParser σ α) (q : ModuleParser τ α) : Prop where
  ends : ∀ s {i j}, R i j → EndAlike R (p (s, i)) (q (s, j)) ∨ apart (p (s, i)).state.2 (q (s, j)).state.2
  left : ∀ j, Maintains (apart · j) p
  right : ∀ i, Maintains (apart i ·) q

namespace GoWith

variable {R apart : σ → τ → Prop} {I : Importer σ} {J : Importer τ}

theorem pure (a : α) : GoWith R apart (Pure.pure a) (Pure.pure a) where
  ends s _ _ h := .inl (.ok a s h)
  left _ := .pure a
  right _ := .pure a

theorem bind {p : ModuleParser σ α} {q : ModuleParser τ α} {next : α → ModuleParser σ β} {next' : α → ModuleParser τ β}
    (h : GoWith R apart p q) (hn : ∀ a, GoWith R apart (next a) (next' a)) :
    GoWith R apart (p >>= next) (q >>= next') where
  left j := (h.left j).bind fun a => (hn a).left j
  right i := (h.right i).bind fun a => (hn a).right i
  ends := by
    intro s i j hij
    rcases h.ends s hij with halike | hapart
    · generalize hp : p (s, i) = r, hq : q (s, j) = r' at halike
      cases halike with
      | ok a s h =>
        rw [bind_of_ok hp, bind_of_ok hq]
        exact (hn a).ends s h
      | error e s h =>
        rw [bind_of_error hp, bind_of_error hq]
        exact .inl (.error e s h)
    · -- Whichever of the two goes on, they stay apart.
      refine .inr (Maintains.rest (fun a => (hn a).right _) ?_)
      exact Maintains.rest (fun a => (hn a).left _) hapart

theorem lift (p : Parser α) : GoWith R apart (Grammar.lift p) (Grammar.lift p) where
  left _ := .lift p
  right _ := .lift p
  ends := by
    intro s i j hij
    unfold Grammar.lift
    dsimp only
    cases p s with
    | ok a s' => exact .inl (.ok a s' hij)
    | error e s' => exact .inl (.error e s' hij)

theorem ite {c : Prop} [Decidable c] {p p' : ModuleParser σ α} {q q' : ModuleParser τ α} (h : GoWith R apart p q)
    (h' : GoWith R apart p' q') : GoWith R apart (if c then p else p') (if c then q else q') := by
  split
  · exact h
  · exact h'

theorem forIn {body : β → ModuleParser σ PUnit} {body' : β → ModuleParser τ PUnit}
    (h : ∀ x, GoWith R apart (body x) (body' x)) (xs : List β) :
    GoWith R apart (forIn xs PUnit.unit fun x _ => do
      body x
      return ForInStep.yield PUnit.unit) (forIn xs PUnit.unit fun x _ => do
      body' x
      return ForInStep.yield PUnit.unit) := by
  induction xs with
  | nil => exact pure _
  | cons x xs ih =>
    rw [List.forIn_cons, List.forIn_cons, bind_assoc, bind_assoc]
    exact (h x).bind fun _ => ih

theorem loadFrom (h : I.GoesWith R apart J) (uri : String) (offset : Nat) (location : String) :
    GoWith R apart (loadFrom I uri offset location) (loadFrom J uri offset location) where
  left _ := .loadFrom (fun location _ hapart => h.left hapart location) uri offset location
  right _ := .loadFrom (fun location _ hapart => h.right hapart location) uri offset location
  ends := by
    intro s i j hij
    have hload := h.load hij location
    unfold Grammar.loadFrom
    dsimp only
    rcases hi : I.load location i with ⟨outcome, i'⟩
    rcases hj : J.load location j with ⟨outcome', j'⟩
    rw [hi, hj] at hload
    have hlift (p q : Parser Unit) (hapart : apart i' j') :
        apart (Grammar.lift p (s, i')).state.2 (Grammar.lift q (s, j')).state.2 := by
      have hright : Maintains (apart i' ·) (Grammar.lift q) := .lift q
      have hleft : Maintains (apart · (Grammar.lift q (s, j')).state.2) (Grammar.lift p) := .lift p
      exact hleft.state s (hright.state s hapart)
    rcases hload with ⟨houtcome, hstates⟩ | hapart
    · obtain rfl : outcome = outcome' := houtcome
      cases outcome with
      | ok m => exact (lift _).ends s hstates
      | error e => exact (lift _).ends s hstates
    · cases outcome <;> cases outcome' <;> exact .inr (hlift _ _ hapart)

theorem loadImport (h : I.GoesWith R apart J) (library : ModuleImport) (offset : Nat) :
    GoWith R apart (loadImport (some I) library offset) (loadImport (some J) library offset) where
  left _ := .loadImport (fun location _ hapart => h.left hapart location) library offset
  right _ := .loadImport (fun location _ hapart => h.right hapart location) library offset
  ends := by
    intro s i j hij
    -- Both look for the locations in states that belong together.
    have hlocations := h.locate hij library.targetNamespace library.locations s.module
    have hget {υ : Type} (k : υ) : (get : ModuleParser υ (ParserState × υ)) (s, k) = .ok (s, k) (s, k) := rfl
    have hloads (locations : List String) : GoWith R apart
        (do for location in locations do Grammar.loadFrom I library.targetNamespace offset location)
        (do for location in locations do Grammar.loadFrom J library.targetNamespace offset location) :=
      (forIn (fun location => loadFrom h _ offset location) locations).bind fun _ => pure _
    unfold Grammar.loadImport
    dsimp only
    rw [bind_of_ok (hget i), bind_of_ok (hget j)]
    dsimp only
    rw [hlocations]
    exact (ite ((lift _).bind fun _ => hloads _) (hloads _)).ends s hij

theorem declarationsWithin (h : I.GoesWith R apart J) (n : Nat) (part : Section) :
    GoWith R apart (declarationsWithin (some I) n part) (declarationsWithin (some J) n part) := by
  induction n generalizing part with
  | zero => exact lift _
  | succ n ih =>
    refine (lift declarationHead).bind ?_
    rintro (_ | head)
    · exact pure _
    have hfurther : GoWith R apart (do
          let rest ← Grammar.declarationsWithin (some I) n
            (if head.part = .declarations then .declarations else part)
          return head.decl :: rest) (do
          let rest ← Grammar.declarationsWithin (some J) n
            (if head.part = .declarations then .declarations else part)
          return head.decl :: rest) := (ih _).bind fun _ => pure _
    have hrest (u : Unit) := (lift (expect Terminal.semicolon)).bind fun _ : Unit =>
      ite (c := part = .declarations ∧ head.part = .setup)
        ((lift (record .malformed head.decl.offset ("setters, namespace declarations and imports must precede " ++
            "variable, function, option and context item declarations"))).bind fun _ : Unit => hfurther) hfurther
    dsimp only
    split
    · exact (loadImport h _ _).bind hrest
    · exact hrest ()

theorem prolog (h : I.GoesWith R apart J) (version : Option VersionDecl) :
    GoWith R apart (prolog (some I) version) (prolog (some J) version) where
  left _ := .prolog (fun location _ hapart => h.left hapart location) version
  right _ := .prolog (fun location _ hapart => h.right hapart location) version
  ends := by
    intro s i j hij
    have hget {υ : Type} (k : υ) : (get : ModuleParser υ (ParserState × υ)) (s, k) = .ok (s, k) (s, k) := rfl
    unfold Grammar.prolog
    rw [bind_of_ok (hget i), bind_of_ok (hget j)]
    exact ((declarationsWithin h _ _).bind fun _ => pure _).ends s hij

theorem moduleUnit (h : I.GoesWith R apart J) (kind : Option ModuleKind) (hasLocation : Bool) :
    GoWith R apart (moduleUnit (some I) kind hasLocation) (moduleUnit (some J) kind hasLocation) := by
  have hmain (version : Option VersionDecl) :
      GoWith R apart (mainModule (some I) version) (mainModule (some J) version) :=
    (prolog h version).bind fun _ => (lift _).bind fun _ => (lift _).bind fun _ => pure _
  have hlibrary (version : Option VersionDecl) :
      GoWith R apart (libraryModule (some I) hasLocation version) (libraryModule (some J) hasLocation version) :=
    (lift _).bind fun _ => (prolog h version).bind fun _ => (lift _).bind fun _ => pure _
  refine (lift _).bind fun version => (lift _).bind fun isLibrary => ?_
  rcases kind with _ | _ | _ <;> cases isLibrary
  · exact hmain version
  · exact hlibrary version
  · exact hmain version
  · exact lift _
  · exact hlibrary version
  · exact hlibrary version

end GoWith

/-- A module comes out the same with importers that go along with one another, unless they part. -/
theorem Importer.GoesWith.parse {R apart : σ → τ → Prop} {I : Importer σ} {J : Importer τ}
    (h : I.GoesWith R apart J) (kind : Option ModuleKind) (text : String) (config : Config) {i : σ} {j : τ}
    (hij : R i j) :
    ((parseModuleWith (some I) kind text config i).1 = (parseModuleWith (some J) kind text config j).1 ∧
      R (parseModuleWith (some I) kind text config i).2 (parseModuleWith (some J) kind text config j).2) ∨
    apart (parseModuleWith (some I) kind text config i).2 (parseModuleWith (some J) kind text config j).2 := by
  have hends := (GoWith.moduleUnit h kind config.sourceUri.isSome).ends (.ofText text config) hij
  unfold parseModuleWith
  rcases hends with halike | hapart
  · generalize moduleUnit (some I) kind config.sourceUri.isSome (.ofText text config, i) = r,
      moduleUnit (some J) kind config.sourceUri.isSome (.ofText text config, j) = r' at halike
    cases halike with
    | ok m s h => exact .inl ⟨rfl, h⟩
    | error e s h => exact .inl ⟨rfl, h⟩
  · generalize moduleUnit (some I) kind config.sourceUri.isSome (.ofText text config, i) = r,
      moduleUnit (some J) kind config.sourceUri.isSome (.ofText text config, j) = r' at hapart
    cases r <;> cases r' <;> exact .inr hapart

end XQuerySyntax

/-! ### Requests

The requests of a module are written down by an importer that does all else as the one that answers them. A
request that stops the module is the last one. -/

namespace XQuerySyntax

open Grammar Progress

variable {σ τ : Type}

/-- A request to an importer, with the answer and the states around it. -/
structure Call (σ : Type) where
  location : String
  before : σ
  outcome : Except ImportError ParsedModule
  after : σ

namespace Importer

/-- An importer that writes down what it is asked for. -/
def logged (importer : Importer σ) : Importer (σ × List (Call σ)) where
  locate uri hints id s := importer.locate uri hints id s.1
  load location s :=
    let (outcome, i) := importer.load location s.1
    (outcome, i, s.2 ++ [⟨location, s.1, outcome, i⟩])

/-- The requests lead the importer from one state to another; between them it stays as it is. -/
inductive Answers (importer : Importer σ) (start : σ) : List (Call σ) → σ → Prop
  | none : Answers importer start [] start
  | more {calls location i outcome i'} (h : Answers importer start calls i)
    (hload : importer.load location i = (outcome, i')) :
    Answers importer start (calls ++ [⟨location, i, outcome, i'⟩]) i'

/-- What each answer does to an importer happens between the beginning and each request, and between each
answer and the end. -/
theorem Answers.of_mem {importer : Importer σ} {start i : σ} {calls : List (Call σ)} {call : Call σ}
    {P : σ → σ → Prop} (hrefl : ∀ i, P i i) (htrans : ∀ {i j k}, P i j → P j k → P i k)
    (hload : ∀ location i, P i (importer.load location i).2) (h : importer.Answers start calls i)
    (hcall : call ∈ calls) :
    importer.load call.location call.before = (call.outcome, call.after) ∧ P start call.before ∧ P call.after i := by
  have hpast {calls : List (Call σ)} {i : σ} (h : importer.Answers start calls i) : P start i := by
    induction h with
    | none => exact hrefl _
    | @more _ location i _ _ _ hlast ih =>
      have hstep := hload location i
      rw [hlast] at hstep
      exact htrans ih hstep
  induction h with
  | none => cases hcall
  | @more calls location i outcome i' hearlier hlast ih =>
    rcases List.mem_append.1 hcall with hcall | hcall
    · obtain ⟨hanswer, hbefore, hafter⟩ := ih hcall
      have hstep := hload location i
      rw [hlast] at hstep
      exact ⟨hanswer, hbefore, htrans hafter hstep⟩
    · obtain rfl := List.mem_singleton.1 hcall
      exact ⟨hlast, hpast hearlier, hrefl _⟩

theorem logged_goesWith (importer : Importer σ) :
    importer.logged.GoesWith (fun s i => s.1 = i) (fun _ _ => False) importer where
  locate := by
    rintro ⟨i, calls⟩ _ rfl uri hints id
    rfl
  load := by
    rintro ⟨i, calls⟩ _ rfl location
    exact .inl ⟨rfl, rfl⟩
  left h := h.elim
  right h := h.elim

end Importer

/-- The requests of a module in their order. -/
def callsOf (importer : Importer σ) (kind : Option ModuleKind) (text : String) (config : Config) (i : σ) :
    List (Call σ) :=
  (parseModuleWith (some importer.logged) kind text config (i, [])).2.2

section

variable {importer : Importer σ} {kind : Option ModuleKind} {text : String} {config : Config} {i i' : σ}

/-- Nothing else changes when the requests are written down. -/
theorem parse_logged (importer : Importer σ) (kind : Option ModuleKind) (text : String) (config : Config) (i : σ) :
    parseModuleWith (some importer.logged) kind text config (i, []) =
      ((parseModuleWith (some importer) kind text config i).1, (parseModuleWith (some importer) kind text config i).2,
        callsOf importer kind text config i) := by
  obtain ⟨houtcome, hstate⟩ := (importer.logged_goesWith.parse kind text config (i := (i, [])) rfl).resolve_right id
  exact Prod.ext houtcome (Prod.ext hstate rfl)

theorem answers_callsOf (importer : Importer σ) (kind : Option ModuleKind) (text : String) (config : Config) (i : σ) :
    importer.Answers i (callsOf importer kind text config i)
      (parseModuleWith (some importer) kind text config i).2 := by
  have hanswers (location : String) (s : σ × List (Call σ)) (hs : importer.Answers i s.2 s.1) :
      importer.Answers i (importer.logged.load location s).2.2 (importer.logged.load location s).2.1 := .more hs rfl
  have hkeeps := parseModuleWith_keeps hanswers kind text config (i := (i, [])) .none
  rwa [parse_logged] at hkeeps

/-- How the requests of a module stand to its end. -/
theorem sustained_logged (importer : Importer σ) :
    Sustained (some importer.logged) (fun s => ∀ call ∈ s.2, stopCode? call.outcome = none) fun stop s =>
      (stop.Ordinary ∧ ∀ call ∈ s.2, stopCode? call.outcome = none) ∨
      ∃ earlier last d, s.2 = earlier ++ [last] ∧ (∀ call ∈ earlier, stopCode? call.outcome = none) ∧
        last.after = s.1 ∧ stopCode? last.outcome = some d.code ∧ stop = .fatal d where
  stop hstop hnone := .inl ⟨hstop, hnone⟩
  load := by
    rintro _ ⟨⟩ location ⟨i, calls⟩ outcome s' hload hnone
    cases hload
    split
    · rename_i hcode
      exact List.forall_mem_append.2 ⟨hnone, List.forall_mem_singleton.2 hcode⟩
    · rename_i code hcode
      rintro d rfl
      exact .inr ⟨calls, _, d, rfl, hnone, rfl, hcode, rfl⟩

/-- A module that can be had has got no answer that would have stopped it. -/
theorem calls_of_ok {m : ParsedModule} (h : (parseModuleWith (some importer) kind text config i).1 = .ok m) :
    ∀ call ∈ callsOf importer kind text config i, stopCode? call.outcome = none := by
  have hlogged := parse_logged importer kind text config i
  rw [h] at hlogged
  have hends := (sustained_logged importer).of_ok (List.forall_mem_nil _) hlogged
  exact hends

/-- A request with an answer that stops the module is the last one: the module stops with the code of the
answer, where the importer is by then. -/
theorem stops_of_call {call : Call σ} {code : ErrorCode} (hcall : call ∈ callsOf importer kind text config i)
    (hcode : stopCode? call.outcome = some code) :
    ∃ e, parseModuleWith (some importer) kind text config i = (.error e, call.after) ∧ e.diagnostic.code = code := by
  have hlogged := parse_logged importer kind text config i
  have hgoes {known : List (Call σ)} (hnone : ∀ call ∈ known, stopCode? call.outcome = none) : call ∉ known := by
    intro hmem
    rw [hnone call hmem] at hcode
    cases hcode
  rcases hr : parseModuleWith (some importer) kind text config i with ⟨e | m, i'⟩
  · rw [hr] at hlogged
    obtain ⟨stop, hstop, ⟨-, hnone⟩ | ⟨earlier, last, d, hcalls, hnone, hafter, hlast, rfl⟩⟩ :=
      (sustained_logged importer).of_error (List.forall_mem_nil _) hlogged
    · exact absurd hcall (hgoes hnone)
    · rw [show callsOf importer kind text config i = _ from hcalls] at hcall
      obtain rfl := List.mem_singleton.1 ((List.mem_append.1 hcall).resolve_left (hgoes hnone))
      refine ⟨e, by rw [hafter], ?_⟩
      rw [hstop]
      exact Option.some.inj (hlast.symm.trans hcode)
  · exact absurd hcall (hgoes (calls_of_ok (congrArg Prod.fst hr)))

/-- A module that stops with the code of a cycle has got an answer with this code. -/
theorem call_of_cyclic {e : ParseError} (h : (parseModuleWith (some importer) kind text config i).1 = .error e)
    (hcode : e.diagnostic.code = .cyclicImport) :
    ∃ call ∈ callsOf importer kind text config i, stopCode? call.outcome = some .cyclicImport := by
  have hlogged := parse_logged importer kind text config i
  rw [h] at hlogged
  obtain ⟨stop, hstop, ⟨hordinary, -⟩ | ⟨earlier, last, d, hcalls, -, -, hlast, rfl⟩⟩ :=
    (sustained_logged importer).of_error (List.forall_mem_nil _) hlogged
  · cases stop with
    | fatal d => exact absurd ((congrArg Diagnostic.code hstop).symm.trans hcode) hordinary
    | exhausted => exact hordinary.elim
  · refine ⟨last, ?_, ?_⟩
    · rw [show callsOf importer kind text config i = _ from hcalls]
      exact List.mem_append_right _ (List.mem_singleton_self _)
    · rw [hlast, ← hcode, hstop]
      rfl

end

end XQuerySyntax
