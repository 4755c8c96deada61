import XQuerySyntax.Library.Loader
import XQuerySyntax.Proofs.Library.Calls
import XQuerySyntax.Proofs.Tree.Parse

/-! Loading a module. Whatever the module imports and however its parse ends, the chain and the catalog are
what they were, what was kept is still kept, and nothing new is kept for a location on the chain. -/

namespace XQuerySyntax

open Grammar XQuerySyntax.Parser

variable {σ π : Type}

/-! ### Names of libraries -/

section

variable {o : Origin} {d : Nat} {c : StaticContext} {importer : Option (Importer σ)}

/-- A library with a location goes by its location. -/
theorem contract_libraryAtLocation :
    Contract (fun s => s.1.Within o d (Knowledge.when (importer = none) c).holds)
      (moduleUnit importer (some .library) true)
      (fun m s => s.1.module = o.module ∧ ∃ qualifier uri prolog, m = .library qualifier uri prolog)
      fun e s => Faulty o.text e s.1 := by
  refine contract_lift_bind yields_versionDecl fun version hv => contract_lift_bind (yields_peek _) fun isLibrary _ => ?_
  refine (contract_lift (contract_libraryHeader true)).bind fun ⟨qualifier, uri⟩ => ?_
  -- The header does not rename the module, so what follows belongs to the module by the same name.
  have hrest : ModuleTurns (o.library true uri) d (Knowledge.when (importer = none) (c.bind qualifier uri)).holds (do
      let declarations ← prolog importer version
      lift expectEnd
      return Module.library qualifier uri declarations)
      fun m _ => ∃ qualifier uri prolog, m = .library qualifier uri prolog := by
    refine (moduleTurns_prolog importer version).bind fun p => ?_
    refine moduleTurns_of_known fun _ => moduleTurns_of_known fun _ => ?_
    exact moduleTurns_lift_bind yields_expectEnd fun _ _ => moduleTurns_pure fun _ _ => ⟨_, _, _, rfl⟩
  exact Contract.weaken hrest (fun _ hs => hs) fun m s hs => ⟨hs.module, hs.context⟩

theorem library_of_parse {text location : String} {config : Config} {imports : σ} {m : ParsedModule}
    (hlocation : config.sourceUri = some location)
    (h : (parseModuleWith importer (some .library) text config imports).1 = .ok m) :
    m.id = ⟨location⟩ ∧ ∃ qualifier uri prolog, m.module = .library qualifier uri prolog := by
  have hstart : (ParserState.ofText text config).Within (.ofText text config) 0
      (Knowledge.when (importer = none) (.ofConfig config)).holds := ParserState.within_ofText Knowledge.when_refl
  have hends := contract_libraryAtLocation (.ofText text config, imports) hstart
  have hhas : config.sourceUri.isSome = true := by rw [hlocation]; rfl
  unfold parseModuleWith at h
  rw [hhas] at h
  cases hr : moduleUnit importer (some .library) true (.ofText text config, imports) <;>
    rw [hr] at h hends <;> cases h
  obtain ⟨hid, hlibrary⟩ := hends
  refine ⟨hid.trans ?_, hlibrary⟩
  rw [Origin.ofText, hlocation]
  rfl

end

/-! ### What a load comes to -/

namespace LoaderState

/-- While the module at a location is parsed. -/
def entering (s : LoaderState π) (location : String) (sources : π) : LoaderState π :=
  { s with sources, loading := s.loading ++ [location] }

/-- Behind the parse. -/
def leaving (s : LoaderState π) : LoaderState π := { s with loading := s.loading.dropLast }

/-- With a module kept for a location. -/
def keeping (s : LoaderState π) (location : String) (m : ParsedModule) : LoaderState π :=
  { s with cache := s.cache.put location m }

end LoaderState

namespace Loader

/-- What the loading of a location comes to, and where it leaves the loader. -/
inductive Outcome (l : Loader π) : Nat → String → LoaderState π →
    Except ImportError ParsedModule × LoaderState π → Prop
  | cycle {room location s} (hchain : location ∈ s.loading) :
    Outcome l room location s (.error (.cycle (s.loading ++ [location])), s)
  | tooDeep {location s} (hchain : location ∉ s.loading) : Outcome l 0 location s (.error (.tooDeep importLimit), s)
  | cached {room location s m} (hchain : location ∉ s.loading) (hcache : s.cache.get? location = some m) :
    Outcome l (room + 1) location s (.ok m, s)
  | unreadable {room location s e sources} (hchain : location ∉ s.loading) (hcache : s.cache.get? location = none)
    (hread : l.provider.read location s.sources = (.error e, sources)) :
    Outcome l (room + 1) location s (.error (.unreadable location e.message), { s with sources })
  | broken {room location s text sources e s'} (hchain : location ∉ s.loading)
    (hcache : s.cache.get? location = none) (hread : l.provider.read location s.sources = (.ok text, sources))
    (hparse : parseModuleWith (some (importerOf (l.loadWithin room))) (some .library) text (l.configAt location)
      (s.entering location sources) = (.error e, s')) :
    Outcome l (room + 1) location s (.error (.broken location e), s'.leaving)
  | parsed {room location s text sources m s'} (hchain : location ∉ s.loading)
    (hcache : s.cache.get? location = none) (hread : l.provider.read location s.sources = (.ok text, sources))
    (hparse : parseModuleWith (some (importerOf (l.loadWithin room))) (some .library) text (l.configAt location)
      (s.entering location sources) = (.ok m, s')) :
    Outcome l (room + 1) location s (.ok m, s'.leaving.keeping location m)

variable {l : Loader π} {room : Nat} {location : String} {s s' : LoaderState π} {m : ParsedModule}

/-- Each load comes to one of these. -/
theorem outcome_loadWithin (l : Loader π) (room : Nat) (location : String) (s : LoaderState π) :
    Outcome l room location s (l.loadWithin room location s) := by
  by_cases hchain : location ∈ s.loading
  · have hcontains : s.loading.contains location = true := List.contains_iff_mem.2 hchain
    cases room <;> simp only [loadWithin, hcontains, if_true] <;> exact .cycle hchain
  have hcontains : s.loading.contains location = false := by simpa using hchain
  cases room with
  | zero =>
    simp only [loadWithin, hcontains, Bool.false_eq_true, if_false]
    exact .tooDeep hchain
  | succ room =>
    simp only [loadWithin, hcontains, Bool.false_eq_true, if_false]
    cases hcache : s.cache.get? location with
    | some m => exact .cached hchain hcache
    | none =>
      simp only [whileLoading, parseLibraryAt]
      rcases hread : l.provider.read location s.sources with ⟨_ | text, sources⟩
      · -- Nothing was parsed: the chain loses just what it has been given.
        simp only [keep, List.dropLast_concat]
        exact .unreadable hchain hcache hread
      · rcases hparse : parseModuleWith (some (importerOf (l.loadWithin room))) (some .library) text
          (l.configAt location) (s.entering location sources) with ⟨_ | m, s'⟩ <;>
          simp only [LoaderState.entering] at hparse <;> simp only [hparse, keep]
        · exact .broken hchain hcache hread hparse
        · exact .parsed hchain hcache hread hparse

/-! ### What lasts -/

/-- A module that some parse of a text for this location has given. -/
def Parsed (l : Loader π) (location : String) (m : ParsedModule) : Prop :=
  ∃ (importer : Importer (LoaderState π)) (text : String) (s : LoaderState π),
    (parseModuleWith (some importer) (some .library) text (l.configAt location) s).1 = .ok m

/-- Every module that is kept was parsed from a text for its location. -/
def Faithful (l : Loader π) (s : LoaderState π) : Prop :=
  ∀ {location m}, s.cache.get? location = some m → l.Parsed location m

/-- What the state of a loader has in common with the states behind the loads that begin there. -/
structure After (l : Loader π) (s s' : LoaderState π) : Prop where
  loading : s'.loading = s.loading
  catalog : s'.catalog = s.catalog
  kept : ∀ {location m}, s.cache.get? location = some m → s'.cache.get? location = some m
  chain : ∀ {location}, location ∈ s.loading → s'.cache.get? location = s.cache.get? location
  new : ∀ {location m}, s'.cache.get? location = some m → s.cache.get? location = some m ∨ l.Parsed location m

theorem After.refl (s : LoaderState π) : l.After s s := ⟨rfl, rfl, id, fun _ => rfl, .inl⟩

theorem After.trans {s₁ s₂ s₃ : LoaderState π} (h : l.After s₁ s₂) (h' : l.After s₂ s₃) : l.After s₁ s₃ where
  loading := h'.loading.trans h.loading
  catalog := h'.catalog.trans h.catalog
  kept hm := h'.kept (h.kept hm)
  chain hc := (h'.chain (h.loading ▸ hc)).trans (h.chain hc)
  new hm := (h'.new hm).elim h.new .inr

theorem Faithful.after (h : l.Faithful s) (ha : l.After s s') : l.Faithful s' :=
  fun hm => (ha.new hm).elim h id

/-- The modules that a module imports leave the loader as this says, once the module itself is off the chain. -/
theorem After.leaving {sources : π} (h : l.After (s.entering location sources) s') : l.After s s'.leaving where
  loading := by
    have hloading : s'.loading = s.loading ++ [location] := h.loading
    rw [LoaderState.leaving, hloading, List.dropLast_concat]
  catalog := h.catalog
  kept := h.kept
  chain hc := h.chain (List.mem_append_left _ hc)
  new := h.new

theorem After.keeping (h : l.After s s') (hchain : location ∉ s.loading) (hcache : s.cache.get? location = none)
    (hm : l.Parsed location m) : l.After s (s'.keeping location m) where
  loading := h.loading
  catalog := h.catalog
  kept {other m'} hother := by
    have hne : location ≠ other := by
      rintro rfl
      rw [hcache] at hother
      cases hother
    rw [LoaderState.keeping, Table.get?_put, if_neg hne]
    exact h.kept hother
  chain {other} hother := by
    have hne : location ≠ other := by
      rintro rfl
      exact hchain hother
    rw [LoaderState.keeping, Table.get?_put, if_neg hne]
    exact h.chain hother
  new {other m'} hother := by
    rw [LoaderState.keeping, Table.get?_put] at hother
    split at hother
    · rename_i heq
      cases heq
      cases hother
      exact .inr hm
    · exact h.new hother

/-- The step from one chain to the next longer one: if the imports of a module leave the loader in order,
the parse of the module does. -/
theorem after_parse {importer : Importer (LoaderState π)} (h : ∀ location s, l.After s (importer.load location s).2)
    (kind : Option ModuleKind) (text : String) (config : Config) (s : LoaderState π) :
    l.After s (parseModuleWith (some importer) kind text config s).2 :=
  parseModuleWith_keeps (fun location s' hs' => hs'.trans (h location s')) kind text config (After.refl s)

theorem after_loadWithin (l : Loader π) (room : Nat) (location : String) (s : LoaderState π) :
    l.After s (l.loadWithin room location s).2 := by
  -- The induction is on the room on the chain; the imports of the module have one place less.
  induction room generalizing location s with
  | zero =>
    have houtcome := outcome_loadWithin l 0 location s
    generalize l.loadWithin 0 location s = r at houtcome
    cases houtcome <;> exact .refl s
  | succ room ih =>
    have hnested {text sources s' r} (hparse : parseModuleWith (some (importerOf (l.loadWithin room)))
        (some .library) text (l.configAt location) (s.entering location sources) = (r, s')) :
        l.After s s'.leaving := by
      have hafter : l.After (s.entering location sources) (parseModuleWith (some (importerOf (l.loadWithin room)))
          (some .library) text (l.configAt location) (s.entering location sources)).2 := after_parse ih _ _ _ _
      rw [hparse] at hafter
      exact hafter.leaving
    have houtcome := outcome_loadWithin l (room + 1) location s
    generalize l.loadWithin (room + 1) location s = r at houtcome
    cases houtcome with
    | cycle => exact .refl s
    | cached => exact .refl s
    | unreadable => exact ⟨rfl, rfl, id, fun _ => rfl, .inl⟩
    | broken hchain hcache hread hparse => exact hnested hparse
    | parsed hchain hcache hread hparse =>
      exact (hnested hparse).keeping hchain hcache ⟨_, _, _, congrArg Prod.fst hparse⟩

theorem after_load (l : Loader π) (location : String) (s : LoaderState π) : l.After s (l.load location s).2 :=
  after_loadWithin l _ location s

/-- So does a module that is parsed with the loader as its importer. -/
theorem after_parseWithin {kind : Option ModuleKind} {text : String} {config : Config}
    {r : Except ParseError ParsedModule}
    (h : parseModuleWith (some (importerOf (l.loadWithin room))) kind text config s = (r, s')) : l.After s s' := by
  have hafter : l.After s (parseModuleWith (some (importerOf (l.loadWithin room))) kind text config s).2 :=
    after_parse (after_loadWithin l room) kind text config s
  rwa [h] at hafter

/-- What has been loaded is kept. -/
theorem kept_of_loadWithin (h : l.loadWithin room location s = (.ok m, s')) : s'.cache.get? location = some m := by
  have houtcome := outcome_loadWithin l room location s
  rw [h] at houtcome
  cases houtcome with
  | cached hchain hcache => exact hcache
  | parsed => rw [LoaderState.keeping, Table.get?_put, if_pos rfl]

/-- What is kept is loaded without a change. -/
theorem loadWithin_of_cached (hroom : room ≠ 0) (hchain : location ∉ s.loading)
    (hcache : s.cache.get? location = some m) : l.loadWithin room location s = (.ok m, s) := by
  obtain ⟨n, rfl⟩ := Nat.exists_eq_succ_of_ne_zero hroom
  have hcontains : s.loading.contains location = false := by simpa using hchain
  unfold loadWithin
  simp only [hcontains, Bool.false_eq_true, if_false, hcache]

/-- A module that cannot be loaded leaves nothing under its location. -/
theorem cache_of_failed {e : ImportError} (h : l.loadWithin room location s = (.error e, s')) :
    s'.cache.get? location = s.cache.get? location := by
  have houtcome := outcome_loadWithin l room location s
  rw [h] at houtcome
  cases houtcome with
  | cycle => rfl
  | tooDeep => rfl
  | unreadable => rfl
  | broken hchain hcache hread hparse =>
    exact (after_parseWithin hparse).chain (List.mem_append_right _ (List.mem_singleton_self _))

/-- A loader of texts held in memory, with the usual settings. -/
def inMemory : Loader MemorySources := ⟨MemorySources.provider, .standard⟩

end Loader

end XQuerySyntax
