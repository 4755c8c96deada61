import XQuerySyntax.Proofs.Tree.Parse

/-! The context behind a module that imports others. A statement about the context and the importer that
every declaration and every loaded module keep true is true at the end of the parse. -/

namespace XQuerySyntax

open Grammar XQuerySyntax.Parser

variable {σ α β : Type} {o : Origin} {d : Nat}

/-- A parser that is no parser of modules leaves the importer as it is. -/
theorem contract_lift_still {pre : ParserState → Prop} {p : Parser α} {post : α → ParserState → Prop}
    {fail : Stop → ParserState → Prop} (imports : σ) (h : Contract pre p post fail) :
    Contract (fun s => pre s.1 ∧ s.2 = imports) (lift p) (fun a s => post a s.1 ∧ s.2 = imports)
      fun _ _ => True := by
  rintro ⟨s, i⟩ ⟨hs, rfl⟩
  have hp := h s hs
  unfold lift
  dsimp only
  cases hr : p s <;> rw [hr] at hp
  · exact ⟨hp, rfl⟩
  · trivial

/-- The context behind the loading of a module for an import: a module of the namespace adds its
signatures. -/
def StaticContext.receive (c : StaticContext) (uri : String) : Except ImportError ParsedModule → StaticContext
  | .ok m => if m.targetNamespace? = some uri then (c.importSignatures m.context uri).2 else c
  | .error _ => c

/-- A statement about the context and the importer, given the declarations that have been read. It goes on
to hold behind each declaration, and behind each module that is loaded for one of them. -/
structure Lasting (importer : Importer σ) (id : ModuleId) where
  holds : List DeclarationKind → StaticContext → σ → Prop
  agrees : ∀ {ds c c' i}, holds ds c i → c.Agrees c' → holds ds c' i
  declare : ∀ {ds c i} (kind : DeclarationKind), holds ds c i → holds (ds ++ [kind]) (c.declare kind) i
  load : ∀ {ds c c₀ i i₀ library location}, .moduleImport library ∈ ds → holds ds c₀ i₀ →
    location ∈ importer.locate library.targetNamespace library.locations id i₀ → holds ds c i →
    holds ds (c.receive library.targetNamespace (importer.load location i).1) (importer.load location i).2

namespace Lasting

variable {importer : Importer σ} {id : ModuleId}

/-- What is known of the context while the importer stays as it is. -/
def knowledge (I : Lasting importer id) (ds : List DeclarationKind) (i : σ) : Knowledge where
  holds c := I.holds ds c i
  closed := I.agrees

end Lasting

/-- Begun where the statement holds of some declarations, the parser ends where it holds of others. -/
abbrev Conveys (o : Origin) (d : Nat) (known : StaticContext → σ → Prop) (p : ModuleParser σ α)
    (post : α → StaticContext → σ → Prop) : Prop :=
  Contract (fun s => s.1.Within o d (known · s.2)) p (fun a s => s.1.Within o d (post a · s.2))
    fun _ _ => True

namespace Conveys

variable {importer : Importer σ} {I : Lasting importer o.module} {ds : List DeclarationKind}

theorem lift_at {known : StaticContext → Prop} {p : Parser α} {post : α → StaticContext → σ → Prop} {i : σ}
    (h : Turns o d known p fun a c => post a c i) {s : ParserState} (hs : s.Within o d known) :
    Ends (fun a (s : ParserState × σ) => s.1.Within o d (post a · s.2)) (fun _ _ => True)
      (Grammar.lift p (s, i)) :=
  Contract.weaken (contract_lift_still i h) (fun _ hs => hs) (fun _ _ hs => hs.2 ▸ hs.1) (s, i) ⟨hs, rfl⟩

theorem lift {known : StaticContext → σ → Prop} {p : Parser α} {post : α → StaticContext → σ → Prop}
    (h : ∀ i, Turns o d (known · i) p fun a c => post a c i) : Conveys o d known (lift p) post :=
  fun s hs => lift_at (h s.2) hs

/-- Behind a parser of expressions the same is known. -/
theorem lift_bind {p : Parser α} {next : α → ModuleParser σ β} {good : α → Prop}
    {ends : β → ParserState × σ → Prop} (h : Yields o d p good)
    (hn : ∀ a, Contract (fun s => s.1.Within o d (I.holds ds · s.2)) (next a) ends fun _ _ => True) :
    Contract (fun s => s.1.Within o d (I.holds ds · s.2)) (Grammar.lift p >>= next) ends fun _ _ => True :=
  Contract.bind (lift fun i => h.turns (K := I.knowledge ds i)) hn

theorem pure {known : StaticContext → σ → Prop} {a : α} {post : α → StaticContext → σ → Prop}
    (h : ∀ c i, known c i → post a c i) : Conveys o d known (Pure.pure a) post :=
  fun s hs => hs.mono fun c hc => h c s.2 hc

theorem get_bind {known : StaticContext → σ → Prop} {next : ParserState × σ → ModuleParser σ β}
    {later : β → StaticContext → σ → Prop}
    (h : ∀ s : ParserState × σ, s.1.Within o d (known · s.2) → Conveys o d known (next s) later) :
    Conveys o d known (get >>= next) later := fun s hs => h s hs s hs

/-! ### Imports -/

/-- A module that has been loaded is received into the context. -/
theorem turns_takeOver (K K' : Knowledge) {m : ParsedModule} {uri : String}
    (h : ∀ c, K.holds c → K'.holds (c.receive uri (.ok m))) (location : String) {offset : Nat}
    (ho : o.HasPlace offset) :
    Turns o d K.holds (takeOver m location uri offset) fun _ => K'.holds := by
  refine turns_ite (fun hne => ?_) fun heq => ?_
  · refine ((yields_record ho _ _).bind fun _ _ => yields_any).turns.weaken (fun _ hs => hs) ?_
    refine fun _ s hs => hs.mono fun c hc => ?_
    have hr := h c hc
    rwa [StaticContext.receive, if_neg hne] at hr
  · have hamend : Turns o d K.holds (amendGet (·.importSignatures m.context uri)) fun _ => K'.holds := by
      refine turns_amendGet fun c hc => ?_
      have hr := h c hc
      rwa [StaticContext.receive, if_pos (not_not.1 heq)] at hr
    refine hamend.bind fun clashes => ?_
    exact ((yields_forIn (fun name => yields_record ho _ _) clashes).bind fun _ _ => yields_any).turns

theorem loadFrom {library : ModuleImport} {location : String} {offset : Nat} (ho : o.HasPlace offset)
    (hmem : .moduleImport library ∈ ds) {c₀ : StaticContext} {i₀ : σ} (h₀ : I.holds ds c₀ i₀)
    (hl : location ∈ importer.locate library.targetNamespace library.locations o.module i₀) :
    Conveys o d (I.holds ds) (Grammar.loadFrom importer library.targetNamespace offset location)
      fun _ => I.holds ds := by
  rintro ⟨s, i⟩ hs
  have hload := fun c (hc : I.holds ds c i) => I.load hmem h₀ hl hc
  unfold Grammar.loadFrom
  dsimp only at hs ⊢
  match importer.load location i, hload with
  | (.ok m, i'), hload =>
    exact lift_at (turns_takeOver (I.knowledge ds i) (I.knowledge ds i') hload location ho) hs
  | (.error e, i'), hload =>
    have hs' : s.Within o d (I.holds ds · i') := hs.mono hload
    exact lift_at (Yields.turns (K := I.knowledge ds i') (yields_importFailed e ho)) hs'

theorem forIn {known : StaticContext → σ → Prop} {body : α → ModuleParser σ PUnit} {xs : List α}
    (h : ∀ x ∈ xs, Conveys o d known (body x) fun _ => known) :
    Conveys o d known (forIn xs PUnit.unit fun x _ => do
      body x
      return ForInStep.yield PUnit.unit) fun _ => known := by
  induction xs with
  | nil => exact fun _ hs => hs
  | cons x xs ih =>
    obtain ⟨hx, hxs⟩ := List.forall_mem_cons.1 h
    rw [List.forIn_cons, bind_assoc]
    exact Contract.bind hx fun _ => ih hxs

theorem loadImport {library : ModuleImport} {offset : Nat} (ho : o.HasPlace offset)
    (hmem : .moduleImport library ∈ ds) :
    Conveys o d (I.holds ds) (Grammar.loadImport (some importer) library offset) fun _ => I.holds ds := by
  refine get_bind fun ⟨s, i⟩ hs => ?_
  have hlocate : s.module = o.module := hs.module
  dsimp only
  rw [hlocate]
  have hloads : Conveys o d (I.holds ds) (do
      for location in importer.locate library.targetNamespace library.locations o.module i do
        Grammar.loadFrom importer library.targetNamespace offset location : ModuleParser σ Unit)
      fun _ => I.holds ds :=
    Contract.bind (forIn fun location hl => loadFrom ho hmem hs.context hl) fun _ => pure fun _ _ hc => hc
  exact Contract.ite (fun _ => lift_bind (yields_record ho _ _) fun _ => hloads) fun _ => hloads

/-! ### Prologs -/

/-- What is left to load behind a declaration is what it imports. -/
theorem pending_declarationHead : Contract (fun _ => True) declarationHead (fun found _ =>
    ∀ head ∈ found, ∀ library ∈ head.pending, head.decl.kind = .moduleImport library) fun _ _ => True := by
  have hnone {kind : DeclarationKind} {part : Section} {offset : Nat} :
      ∀ head ∈ some (⟨⟨kind, offset⟩, part, none⟩ : DeclarationHead), ∀ library ∈ head.pending,
        head.decl.kind = .moduleImport library := by
    rintro _ ⟨⟩ _ ⟨⟩
  have hnothing : ∀ head ∈ (none : Option DeclarationHead), ∀ library ∈ head.pending,
      head.decl.kind = .moduleImport library := fun _ h => nomatch h
  have hpast {β γ : Type} {p : Parser β} {next : β → Parser γ} {post : γ → ParserState → Prop}
      (h : ∀ b, Contract (fun _ => True) (next b) post fun _ _ => True) :
      Contract (fun _ => True) (p >>= next) post fun _ _ => True := (Contract.any _ p).bind h
  refine hpast fun place => hpast fun _ => Contract.ite (fun _ => ?_) fun _ => ?_
  · exact hpast fun offset => hpast fun kind => Contract.pure fun _ _ => hnone
  refine hpast fun _ => Contract.ite (fun _ => ?_) fun _ => ?_
  · refine hpast fun offset => hpast fun ⟨library, isNew⟩ => Contract.pure fun _ _ => ?_
    rintro _ ⟨⟩ found hfound
    cases isNew <;> cases hfound
    rfl
  refine hpast fun _ => Contract.ite (fun _ => ?_) fun _ => ?_
  · exact Contract.pure fun _ _ => hnothing
  refine hpast fun offset => hpast fun declared => ?_
  rcases declared with _ | ⟨kind, part⟩
  · exact hpast fun _ => Contract.pure fun _ _ => hnothing
  · exact Contract.pure fun _ _ => hnone

/-- A declaration is read, and what it imports is known. -/
theorem lift_declarationHead : Conveys o d (I.holds ds) (Grammar.lift declarationHead) fun found c i =>
    found.elim (I.holds ds c i) fun head => (o.HasPlace head.decl.offset ∧
      ∀ library ∈ head.pending, head.decl.kind = .moduleImport library) ∧
        I.holds (ds ++ [head.decl.kind]) c i := by
  refine lift fun i s hs => ?_
  have hhead := ((turns_declarationHead s.context).and pending_declarationHead) s
    ⟨{ hs with context := .refl s.context }, trivial⟩
  cases hr : declarationHead s with
  | error e s' =>
    rw [hr] at hhead
    exact hhead.1
  | ok found s' =>
    rw [hr] at hhead
    obtain ⟨hturns, hpending⟩ := hhead
    cases found with
    | none => exact hturns.mono fun c hc => I.agrees hs.context hc
    | some head =>
      refine hturns.mono ?_
      rintro c ⟨ho, -, hc⟩
      exact ⟨⟨ho, hpending head rfl⟩, I.agrees (I.declare head.decl.kind hs.context) hc⟩

/-- What does not depend on the state is known before the parser begins. -/
theorem of_known {fact : Prop} {known : StaticContext → σ → Prop} {p : ModuleParser σ α}
    {post : α → StaticContext → σ → Prop} (h : fact → Conveys o d known p post) :
    Conveys o d (fun c i => fact ∧ known c i) p post :=
  fun s hs => h hs.context.1 s (hs.mono fun _ hc => hc.2)

theorem declarationsWithin (n : Nat) (part : Section) :
    Conveys o d (I.holds ds) (Grammar.declarationsWithin (some importer) n part)
      fun rest => I.holds (ds ++ rest.map Declaration.kind) := by
  induction n generalizing part ds with
  | zero => exact fun _ _ => trivial
  | succ n ih =>
    refine Contract.bind lift_declarationHead ?_
    rintro (_ | head)
    · refine pure fun _ _ hc => ?_
      rwa [List.map_nil, List.append_nil]
    refine of_known fun ⟨ho, hpending⟩ => ?_
    let ds' := ds ++ [head.decl.kind]
    have hcons (rest : List Declaration) :
        ds' ++ rest.map Declaration.kind = ds ++ (head.decl :: rest).map Declaration.kind := by simp [ds']
    dsimp -zeta only
    extract_lets further rest
    have hfurther (u : Unit) : Conveys o d (I.holds ds') (further u)
        fun rest => I.holds (ds ++ rest.map Declaration.kind) :=
      Contract.bind (ih _) fun rest => pure fun _ _ hc => hcons rest ▸ hc
    have hrest (u : Unit) : Conveys o d (I.holds ds') (rest u)
        fun rest => I.holds (ds ++ rest.map Declaration.kind) := by
      refine lift_bind (yields_expect _) fun _ => Contract.ite (fun _ => ?_) fun _ => hfurther ()
      exact lift_bind (yields_record ho _ _) fun _ => hfurther ()
    split
    · rename_i library hlibrary
      have hmem : .moduleImport library ∈ ds' := by
        rw [← hpending library hlibrary]
        exact List.mem_append_right _ (List.mem_singleton_self _)
      exact Contract.bind (loadImport ho hmem) hrest
    · exact hrest ()

theorem prolog (version : Option VersionDecl) :
    Conveys o d (I.holds []) (Grammar.prolog (some importer) version)
      fun p => I.holds (p.declarations.map Declaration.kind) :=
  get_bind fun _ _ => Contract.bind (declarationsWithin _ _) fun _ => pure fun _ _ hc => hc

end Conveys

/-! ### Modules -/

namespace Lasting

variable {importer : Importer σ} {c : StaticContext} {imports : σ}

/-- Everything that lasts from a context and an importer. -/
def least (importer : Importer σ) (id : ModuleId) (c : StaticContext) (imports : σ) : Lasting importer id where
  holds ds c' i := ∀ I : Lasting importer id, I.holds [] c imports → I.holds ds c' i
  agrees h ha I hI := I.agrees (h I hI) ha
  declare kind h I hI := I.declare kind (h I hI)
  load hmem h₀ hl h I hI := I.load hmem (h₀ I hI) hl (h I hI)

theorem least_start : (least importer o.module c imports).holds [] c imports := fun _ hI => hI

/-- What lasts is true of the context and the importer behind a module, which has its name by then. -/
def Behind (importer : Importer σ) (c : StaticContext) (imports : σ) (m : Module) (s : ParserState × σ) : Prop :=
  (least importer s.1.module (m.contextBefore c) imports).holds m.declared s.1.context s.2

/-- Before the declarations the statement is about the context that is there. -/
theorem begins (importer : Importer σ) {s : ParserState × σ} (hs : s.1.Within o d c.Agrees) (hi : s.2 = imports) :
    s.1.Within o d ((least importer o.module c imports).holds [] · s.2) := by
  rw [hi]
  exact hs.mono fun _ hc => (least importer o.module c imports).agrees least_start hc

theorem contract_mainModule (version : Option VersionDecl) :
    Contract (fun s => s.1.Within o d c.Agrees ∧ s.2 = imports) (mainModule (some importer) version)
      (Behind importer c imports) fun _ _ => True := by
  refine Contract.weaken ?_ (fun s hs => begins importer hs.1 hs.2) fun _ _ hs => hs
  refine Contract.bind (Conveys.prolog version) fun p => ?_
  refine Conveys.lift_bind (yields_queryBody yields_exprSingle) fun body => ?_
  refine Conveys.lift_bind yields_expectEnd fun _ => fun s hs => ?_
  have hcontext := hs.context
  rw [← hs.module] at hcontext
  exact hcontext

theorem contract_libraryModule (hasLocation : Bool) (version : Option VersionDecl) :
    Contract (fun s => s.1.Within o d c.Agrees ∧ s.2 = imports)
      (libraryModule (some importer) hasLocation version) (Behind importer c imports) fun _ _ => True := by
  have hheader : Contract (fun s : ParserState × σ => s.1.Within o d c.Agrees ∧ s.2 = imports)
      (lift (libraryHeader hasLocation)) (fun header s =>
        s.1.Within (o.library hasLocation header.2) d (c.bind header.1 header.2).Agrees ∧ s.2 = imports)
      fun _ _ => True := by
    have hcontext : Contract (ParserState.Within o d (Knowledge.when True c).holds) (libraryHeader hasLocation)
        (fun header => ParserState.Within (o.library hasLocation header.2) d
          (Knowledge.when True (c.bind header.1 header.2)).holds) _ := contract_libraryHeader hasLocation
    refine Contract.weaken (contract_lift_still imports hcontext) ?_ ?_
    · exact fun s hs => ⟨hs.1.mono fun _ hc => ⟨fun _ => hc, hc.unsigned⟩, hs.2⟩
    · exact fun _ s hs => ⟨hs.1.mono fun _ hc => hc.1 trivial, hs.2⟩
  refine hheader.bind fun ⟨qualifier, uri⟩ => ?_
  refine Contract.weaken ?_ (fun s hs => begins importer hs.1 hs.2) fun _ _ hs => hs
  refine Contract.bind (Conveys.prolog version) fun p => ?_
  refine Conveys.lift_bind yields_expectEnd fun _ => fun s hs => ?_
  have hcontext := hs.context
  rw [← hs.module] at hcontext
  exact hcontext

theorem contract_moduleUnit (importer : Importer σ) (imports : σ) (kind : Option ModuleKind) (hasLocation : Bool) :
    Contract (fun s => s.1.Within o d c.Agrees ∧ s.2 = imports) (moduleUnit (some importer) kind hasLocation)
      (Behind importer c imports) fun _ _ => True := by
  have hlift {α β : Type} {p : Parser α} {good : α → Prop} {next : α → ModuleParser σ β}
      {ends : β → ParserState × σ → Prop} (h : Yields o d p good)
      (hn : ∀ a, Contract (fun s => s.1.Within o d c.Agrees ∧ s.2 = imports) (next a) ends fun _ _ => True) :
      Contract (fun s => s.1.Within o d c.Agrees ∧ s.2 = imports) (lift p >>= next) ends fun _ _ => True := by
    exact Contract.bind (contract_lift_still imports (h.turns (K := Knowledge.of c))) hn
  refine hlift yields_versionDecl fun version => hlift (yields_peek _) fun isLibrary => ?_
  rcases kind with _ | _ | _ <;> cases isLibrary
  · exact contract_mainModule version
  · exact contract_libraryModule hasLocation version
  · exact contract_mainModule version
  · have hstop : Yields o d (do
        fatal .malformed (← nextOffset) "expected a main module, found a library module declaration")
        fun _ : Module => False := yields_nextOffset.bind fun offset ho => yields_fatal ho _ _
    exact Contract.weaken (contract_lift_still imports (hstop (Knowledge.of c))) (fun _ hs => hs)
      fun _ _ hs => hs.1.context.1.elim
  · exact contract_libraryModule hasLocation version
  · exact contract_libraryModule hasLocation version

/-- What lasts from the context before the declarations of a module is true of its context. -/
theorem of_parse {kind : Option ModuleKind} {text : String} {config : Config} {m : ParsedModule} {imports' : σ}
    (h : parseModuleWith (some importer) kind text config imports = (.ok m, imports'))
    (I : Lasting importer m.id) (hstart : I.holds [] (m.module.contextBefore (.ofConfig config)) imports) :
    I.holds m.module.declared m.context imports' := by
  have hends := contract_moduleUnit importer imports kind config.sourceUri.isSome (.ofText text config, imports)
    ⟨ParserState.within_ofText (.refl (.ofConfig config)), rfl⟩
  unfold parseModuleWith at h
  cases hr : moduleUnit (some importer) kind config.sourceUri.isSome (.ofText text config, imports) <;>
    rw [hr] at h hends <;> cases h
  exact hends I hstart

end Lasting

end XQuerySyntax
