import XQuerySyntax.Proofs.Static.Declare
import XQuerySyntax.Proofs.Tree.Declaration

/-! Modules that parsers yield, and the context behind them. Imported modules may add signatures to the
context. But for these, the context behind a module is that before it with the effects of its
declarations; where no modules are loaded, it is so with its signatures. -/

namespace XQuerySyntax

/-- The context is known up to the order of its namespaces, but its signatures are known only if
something is so. -/
def Knowledge.when (alone : Prop) (c : StaticContext) : Knowledge where
  holds c' := (alone → c.Agrees c') ∧ c.unsigned.Agrees c'.unsigned
  closed h ha := ⟨fun halone => (h.1 halone).trans ha, h.2.trans ha.unsigned⟩

section

variable {alone : Prop} {c c' : StaticContext}

theorem Knowledge.when_refl : (Knowledge.when alone c).holds c := ⟨fun _ => .refl c, .refl _⟩

theorem Knowledge.when_declare (h : (Knowledge.when alone c).holds c') (d : DeclarationKind) :
    (Knowledge.when alone (c.declare d)).holds (c'.declare d) :=
  ⟨fun halone => (h.1 halone).declare d, StaticContext.agrees_unsigned_declare h.2 d⟩

theorem Knowledge.when_bind (h : (Knowledge.when alone c).holds c') (qualifier uri : String) :
    (Knowledge.when alone (c.bind qualifier uri)).holds (c'.bind qualifier uri) :=
  ⟨fun halone => (h.1 halone).bind qualifier uri, StaticContext.agrees_unsigned_bind h.2 qualifier uri⟩

/-- Where modules are loaded, nothing has to be known of signatures. -/
theorem Knowledge.when_imported (halone : ¬alone) (h : (Knowledge.when alone c).holds c')
    (other : StaticContext) (uri : String) :
    (Knowledge.when alone c).holds (c'.importSignatures other uri).2 :=
  ⟨fun h => (halone h).elim, by rw [StaticContext.unsigned_importSignatures]; exact h.2⟩

end

/-- The context before the declarations of a module: a library module knows its own namespace. -/
def Module.contextBefore (c : StaticContext) : Module → StaticContext
  | main .. => c
  | library qualifier uri _ => c.bind qualifier uri

/-- What the module of a library comes from: without a location it is known by its namespace. -/
def Origin.library (o : Origin) (hasLocation : Bool) (uri : String) : Origin where
  text := o.text
  module := if !hasLocation && uri != "" then ⟨uri⟩ else o.module
  limit := o.limit

namespace Grammar

open XQuerySyntax.Parser

section

variable {σ α β : Type} {o : Origin} {d : Nat} {offset : Nat} {c : StaticContext}
  {known : StaticContext → Prop} {K : Knowledge}

/-- The same of parsers of modules: whatever the importer does, the parsers stay in the text of the
module that imports. -/
def ModuleTurns (o : Origin) (d : Nat) (known : StaticContext → Prop) (p : ModuleParser σ α)
    (post : α → StaticContext → Prop) : Prop :=
  Contract (fun s => s.1.Within o d known) p (fun a s => s.1.Within o d (post a))
    fun e s => Faulty o.text e s.1

theorem contract_lift {p : Parser α} {pre : ParserState → Prop} {post : α → ParserState → Prop}
    {fail : Stop → ParserState → Prop} (h : Contract pre p post fail) :
    Contract (fun s => pre s.1) (lift p : ModuleParser σ α) (fun a s => post a s.1)
      fun e s => fail e s.1 := by
  rintro ⟨s, imports⟩ hs
  have hp := h s hs
  unfold lift
  dsimp only
  cases hr : p s <;> rw [hr] at hp <;> exact hp

theorem moduleTurns_of_known {fact : Prop} {p : ModuleParser σ α} {post : α → StaticContext → Prop}
    (h : fact → ModuleTurns o d known p post) :
    ModuleTurns o d (fun c => fact ∧ known c) p post :=
  fun s hs => h hs.context.1 s (hs.mono fun _ hc => hc.2)

/-- Behind a parser that leaves the context alone, the same is known of it. -/
theorem contract_lift_bind {p : Parser α} {next : α → ModuleParser σ β} {good : α → Prop}
    {ends : β → ParserState × σ → Prop} (h : Yields o d p good)
    (hn : ∀ a, good a → Contract (fun s => s.1.Within o d K.holds) (next a) ends
      fun e s => Faulty o.text e s.1) :
    Contract (fun s => s.1.Within o d K.holds) (lift p >>= next) ends
      fun e s => Faulty o.text e s.1 :=
  (contract_lift (h K)).bind fun a s hs => hn a hs.context.1 s (hs.mono fun _ hc => hc.2)

theorem moduleTurns_lift_bind {p : Parser α} {next : α → ModuleParser σ β} {good : α → Prop}
    {later : β → StaticContext → Prop} (h : Yields o d p good)
    (hn : ∀ a, good a → ModuleTurns o d K.holds (next a) later) :
    ModuleTurns o d K.holds (lift p >>= next) later := contract_lift_bind h hn

theorem moduleTurns_pure {a : α} {post : α → StaticContext → Prop} (h : ∀ c, known c → post a c) :
    ModuleTurns o d known (pure a : ModuleParser σ α) post :=
  fun _ hs => hs.mono h

/-! ### Imports -/

theorem yields_importFailed (error : ImportError) (ho : o.HasPlace offset) :
    Yields o d (importFailed error offset) fun _ => True := by
  cases error with
  | cycle chain => exact yields_fatal ho _ _
  | unreadable location reason => exact yields_record ho _ _
  | broken location e => exact yields_fatal ho _ _
  | tooDeep limit => exact yields_record ho _ _

/-- An imported module may add its signatures to the context. -/
theorem turns_takeOver (loaded : ParsedModule) (location uri : String) (ho : o.HasPlace offset)
    (hK : ∀ c other uri, K.holds c → K.holds (c.importSignatures other uri).2) :
    Turns o d K.holds (takeOver loaded location uri offset) fun _ => K.holds := by
  refine turns_ite (fun _ => ((yields_record ho _ _).bind fun _ _ => yields_any).turns) fun _ => ?_
  have hamend : Turns o d K.holds (amendGet (·.importSignatures loaded.context uri)) fun _ => K.holds :=
    turns_amendGet fun _ hc => hK _ _ _ hc
  refine hamend.bind fun clashes => ?_
  exact ((yields_forIn (fun name => yields_record ho _ _) clashes).bind fun _ _ => yields_any).turns

theorem moduleTurns_loadFrom (importer : Importer σ) (uri location : String)
    (ho : o.HasPlace offset)
    (hK : ∀ c other uri, K.holds c → K.holds (c.importSignatures other uri).2) :
    ModuleTurns o d K.holds (loadFrom importer uri offset location) fun _ => K.holds := by
  rintro ⟨s, imports⟩ hs
  unfold loadFrom
  dsimp only
  match importer.load location imports with
  | (.ok loaded, imports') =>
    exact contract_lift (turns_takeOver loaded location uri ho hK) (s, imports') hs
  | (.error error, imports') =>
    exact contract_lift (yields_importFailed error ho).turns (s, imports') hs

theorem moduleTurns_loadImport (importer : Option (Importer σ)) (library : ModuleImport)
    (ho : o.HasPlace offset) :
    ModuleTurns o d (Knowledge.when (importer = none) c).holds (loadImport importer library offset)
      fun _ => (Knowledge.when (importer = none) c).holds := by
  cases importer with
  | none => exact moduleTurns_pure fun _ hc => hc
  | some importer =>
    let K := Knowledge.when (some importer = none) c
    have hK (c : StaticContext) (other : StaticContext) (uri : String) (hc : K.holds c) :
        K.holds (c.importSignatures other uri).2 := Knowledge.when_imported nofun hc other uri
    have hload (locations : List String) : ModuleTurns o d K.holds (do
        for location in locations do
          loadFrom importer library.targetNamespace offset location : ModuleParser σ Unit)
        fun _ => K.holds :=
      (Contract.forIn (fun location => moduleTurns_loadFrom importer _ location ho hK) locations).bind
        fun _ => moduleTurns_pure fun _ hc => hc
    have hlook : ModuleTurns o d K.holds (get : ModuleParser σ (ParserState × σ)) fun _ => K.holds :=
      fun _ hs => hs
    refine hlook.bind fun ⟨s, imports⟩ => ?_
    refine Contract.ite (fun _ => ?_) fun _ => hload _
    exact moduleTurns_lift_bind (yields_record ho _ _) fun _ _ => hload _

/-! ### Prologs -/

/-- Declarations in places of the text, and the context behind them, with its signatures if no module is
loaded. -/
abbrev Declarations (o : Origin) (alone : Prop) (c : StaticContext) (ds : List Declaration)
    (c' : StaticContext) : Prop :=
  (∀ x ∈ ds, o.HasPlace x.offset ∧ x.kind.Sound o) ∧
    (Knowledge.when alone (c.declareInOrder (ds.map Declaration.kind))).holds c'

/-- Each round of a prolog adds a declaration and its effect. -/
theorem moduleTurns_declarationsWithin (importer : Option (Importer σ)) (n : Nat) (part : Section)
    (c : StaticContext) :
    ModuleTurns o d (Knowledge.when (importer = none) c).holds (declarationsWithin importer n part)
      (Declarations o (importer = none) c) := by
  induction n generalizing part c with
  | zero => exact fun _ hs => ⟨isBoundary_zero o.text, hs.recorded⟩
  | succ n ih =>
    -- The head is read in the context that is there, of which more is known than is asked for.
    have hhead : Turns o d (Knowledge.when (importer = none) c).holds declarationHead fun found c' =>
        found.elim ((Knowledge.when (importer = none) c).holds c') fun head =>
          (o.HasPlace head.decl.offset ∧ head.decl.kind.Sound o) ∧
            (Knowledge.when (importer = none) (c.declare head.decl.kind)).holds c' := by
      intro s hs
      refine Contract.weaken (turns_declarationHead s.context) (fun _ h => h) ?_ s
        { hs with context := .refl s.context }
      rintro (_ | head) s' hs'
      · exact hs'.mono fun c' hc => Knowledge.closed _ hs.context hc
      · refine hs'.mono ?_
        rintro c' ⟨ho, hsound, hc⟩
        exact ⟨⟨ho, hsound⟩, Knowledge.closed _ (Knowledge.when_declare hs.context head.decl.kind) hc⟩
    refine (contract_lift hhead).bind ?_
    rintro (_ | head)
    · exact moduleTurns_pure fun c' hc => ⟨List.forall_mem_nil _, hc⟩
    refine moduleTurns_of_known fun ⟨ho, hsound⟩ => ?_
    dsimp -zeta only
    extract_lets further rest
    let K := Knowledge.when (importer = none) (c.declare head.decl.kind)
    have hfurther (u : Unit) :
        ModuleTurns o d K.holds (further u) (Declarations o (importer = none) c) := by
      refine (ih _ _).bind fun ds => moduleTurns_of_known fun hds => moduleTurns_pure fun c' hc => ?_
      exact ⟨List.forall_mem_cons.2 ⟨⟨ho, hsound⟩, hds⟩, hc⟩
    have hrest (u : Unit) :
        ModuleTurns o d K.holds (rest u) (Declarations o (importer = none) c) := by
      refine moduleTurns_lift_bind (yields_expect _) fun _ _ => ?_
      refine Contract.ite (fun _ => ?_) fun _ => hfurther ()
      exact moduleTurns_lift_bind (yields_record ho _ _) fun _ _ => hfurther ()
    split
    · exact (moduleTurns_loadImport importer _ ho).bind hrest
    · exact hrest ()

theorem moduleTurns_prolog (importer : Option (Importer σ)) (version : Option VersionDecl) :
    ModuleTurns o d (Knowledge.when (importer = none) c).holds (prolog importer version)
      fun p c' => p.version = version ∧ Declarations o (importer = none) c p.declarations c' := by
  let K := Knowledge.when (importer = none) c
  have hlook : ModuleTurns o d K.holds (get : ModuleParser σ (ParserState × σ)) fun _ => K.holds :=
    fun _ hs => hs
  refine hlook.bind fun ⟨s, imports⟩ => ?_
  refine (moduleTurns_declarationsWithin importer _ _ c).bind fun ds => ?_
  exact moduleTurns_pure fun c' hc => ⟨rfl, hc⟩

/-! ### Versions -/

theorem yields_checkVersion (decl : VersionDecl) (ho : o.HasPlace decl.offset) :
    Yields o d (checkVersion decl) fun v => o.HasPlace v.offset := by
  unfold checkVersion
  extract_lets finish checkEncoding
  have hfinish (u : Unit) : Yields o d (finish u) fun v => o.HasPlace v.offset :=
    (yields_expect _).bind fun _ _ => yields_pure ho
  have hencoding (u : Unit) : Yields o d (checkEncoding u) fun v => o.HasPlace v.offset := by
    dsimp only [checkEncoding]
    split
    · refine yields_ite (fun _ => ?_) fun _ => (yields_record ho _ _).bind fun _ _ => hfinish ()
      exact (yields_warn ho _ _).bind fun _ _ => hfinish ()
    · exact hfinish ()
  split
  · refine yields_ite (fun _ => ?_) fun _ => hencoding ()
    exact (yields_record ho _ _).bind fun _ _ => hencoding ()
  · exact hencoding ()

theorem yields_versionDecl :
    Yields o d versionDecl fun found => ∀ v ∈ found, o.HasPlace v.offset := by
  refine yields_ifEat ?_ (yields_ifEat ?_ yields_none)
  · refine yields_start.bind fun offset ho => (yields_capturedString 0).bind fun version _ => ?_
    refine (yields_whenEats (yields_capturedString 0)).bind fun encoding _ => ?_
    exact (yields_checkVersion ⟨some version, encoding, offset⟩ ho).some
  · refine yields_start.bind fun offset ho => (yields_capturedString 0).bind fun encoding _ => ?_
    exact (yields_checkVersion ⟨none, some encoding, offset⟩ ho).some

/-! ### Modules -/

/-- A sound module, and the context behind it, with its signatures if it loads no module. -/
abbrev Parsed (o : Origin) (alone : Prop) (c : StaticContext) (m : Module) (c' : StaticContext) :
    Prop :=
  m.Sound o ∧ (Knowledge.when alone ((m.contextBefore c).declareInOrder m.declared)).holds c'

theorem moduleTurns_mainModule (importer : Option (Importer σ)) {version : Option VersionDecl}
    (hv : ∀ v ∈ version, o.HasPlace v.offset) :
    ModuleTurns o d (Knowledge.when (importer = none) c).holds (mainModule importer version)
      (Parsed o (importer = none) c) := by
  refine (moduleTurns_prolog importer version).bind fun p => ?_
  refine moduleTurns_of_known fun hversion => moduleTurns_of_known fun hdecls => ?_
  refine moduleTurns_lift_bind (yields_queryBody yields_exprSingle) fun body hbody => ?_
  refine moduleTurns_lift_bind yields_expectEnd fun _ _ => moduleTurns_pure fun c' hc => ?_
  refine ⟨⟨?_, hdecls, ?_⟩, hc⟩
  · change ∀ v ∈ p.version, _
    rwa [hversion]
  · rintro _ ⟨⟩
    exact hbody

/-- The header of a library binds its namespace, and may name the module. -/
theorem contract_libraryHeader (hasLocation : Bool) {alone : Prop} :
    Contract (ParserState.Within o d (Knowledge.when alone c).holds) (libraryHeader hasLocation)
      (fun header => ParserState.Within (o.library hasLocation header.2) d
        (Knowledge.when alone (c.bind header.1 header.2)).holds) (Faulty o.text) := by
  refine (yields_expect _).contract_bind fun _ _ => yields_start.contract_bind fun offset ho => ?_
  refine (yields_expect _).contract_bind fun _ _ => ?_
  refine (yields_capturedName 0).contract_bind fun qualifier _ => ?_
  refine (yields_capturedString 1).contract_bind fun uri _ => ?_
  extract_lets rest
  have hrest (u : Unit) : Contract (ParserState.Within o d (Knowledge.when alone c).holds) (rest u)
      (fun header => ParserState.Within (o.library hasLocation header.2) d
        (Knowledge.when alone (c.bind header.1 header.2)).holds) (Faulty o.text) := by
    refine (yields_checkBinding qualifier uri ho).contract_bind fun _ _ => ?_
    have hbind : Turns o d (Knowledge.when alone c).holds (amend (·.bind qualifier uri)) fun _ =>
        (Knowledge.when alone (c.bind qualifier uri)).holds :=
      turns_amend fun _ hc => Knowledge.when_bind hc qualifier uri
    refine Contract.bind hbind fun _ => ?_
    -- Here the origin changes: what comes behind belongs to the module by its new name.
    have hname : Contract (ParserState.Within o d (Knowledge.when alone (c.bind qualifier uri)).holds)
        (modify fun s => { s with
          declaredPrefixes := qualifier :: s.declaredPrefixes
          module := if !hasLocation && uri != "" then ⟨uri⟩ else s.module
          libraryNamespace := Option.some uri } : Parser PUnit)
        (fun _ => ParserState.Within (o.library hasLocation uri) d
          (Knowledge.when alone (c.bind qualifier uri)).holds) (Faulty o.text) := by
      intro s hs
      refine ⟨hs.scan, ?_, hs.limit, hs.depth, hs.context, hs.recorded⟩
      change (if !hasLocation && uri != "" then _ else s.module) = _
      rw [hs.module]
      rfl
    exact hname.bind fun _ => (yields_expect _).contract_bind fun _ _ => fun _ hs => hs
  refine Contract.ite (fun _ => ?_) fun _ => hrest ()
  exact (yields_record ho _ _).contract_bind fun _ _ => hrest ()

theorem contract_libraryModule (importer : Option (Importer σ)) (hasLocation : Bool)
    {version : Option VersionDecl} (hv : ∀ v ∈ version, o.HasPlace v.offset) :
    Contract (fun s => s.1.Within o d (Knowledge.when (importer = none) c).holds)
      (libraryModule importer hasLocation version)
      (fun m s => ∃ id, s.1.Within { o with module := id } d
        (Parsed { o with module := id } (importer = none) c m))
      fun e s => Faulty o.text e s.1 := by
  refine (contract_lift (contract_libraryHeader hasLocation)).bind fun ⟨qualifier, uri⟩ => ?_
  have hrest : ModuleTurns (o.library hasLocation uri) d
      (Knowledge.when (importer = none) (c.bind qualifier uri)).holds (do
        let declarations ← prolog importer version
        lift expectEnd
        return Module.library qualifier uri declarations)
      (Parsed (o.library hasLocation uri) (importer = none) c) := by
    refine (moduleTurns_prolog importer version).bind fun p => ?_
    refine moduleTurns_of_known fun hversion => moduleTurns_of_known fun hdecls => ?_
    refine moduleTurns_lift_bind yields_expectEnd fun _ _ => moduleTurns_pure fun c' hc => ?_
    refine ⟨⟨?_, hdecls, fun _ h => nomatch h⟩, hc⟩
    change ∀ v ∈ p.version, _
    rwa [hversion]
  exact Contract.weaken hrest (fun _ hs => hs) fun m s hs => ⟨(o.library hasLocation uri).module, hs⟩

/-- A parse of a module ends with a sound module that goes by the name it has at the end. -/
theorem contract_moduleUnit (importer : Option (Importer σ)) (kind : Option ModuleKind)
    (hasLocation : Bool) :
    Contract (fun s => s.1.Within o d (Knowledge.when (importer = none) c).holds)
      (moduleUnit importer kind hasLocation)
      (fun m s => ∃ id, s.1.Within { o with module := id } d
        (Parsed { o with module := id } (importer = none) c m))
      fun e s => Faulty o.text e s.1 := by
  refine contract_lift_bind yields_versionDecl fun version hv => ?_
  refine contract_lift_bind (yields_peek _) fun isLibrary _ => ?_
  have hlibrary := contract_libraryModule (d := d) (c := c) importer hasLocation hv
  have hmain : Contract (fun s => s.1.Within o d (Knowledge.when (importer = none) c).holds)
      (mainModule importer version)
      (fun m s => ∃ id, s.1.Within { o with module := id } d
        (Parsed { o with module := id } (importer = none) c m))
      fun e s => Faulty o.text e s.1 :=
    Contract.weaken (moduleTurns_mainModule importer hv) (fun _ hs => hs) fun m s hs => ⟨o.module, hs⟩
  rcases kind with _ | _ | _ <;> cases isLibrary
  · exact hmain
  · exact hlibrary
  · exact hmain
  · have hstop : Yields o d (do
        fatal .malformed (← nextOffset) "expected a main module, found a library module declaration")
        fun _ : Module => False := yields_nextOffset.bind fun offset ho => yields_fatal ho _ _
    exact Contract.weaken (contract_lift (hstop _)) (fun _ hs => hs) fun _ _ hs => hs.context.1.elim
  · exact hlibrary
  · exact hlibrary

/-- A parse of a single expression ends with a sound one. -/
theorem yields_expressionUnit : Yields o d expressionUnit (Expr.IsOperand o) :=
  (yields_expr yields_exprSingle).bind fun _ he => yields_expectEnd.bind fun _ _ => yields_pure he

end

end Grammar

end XQuerySyntax
