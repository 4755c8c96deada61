import XQuerySyntax.Proofs.Library.History

/-! What a location comes to when nothing is kept. A loader that keeps what it has parsed gives the same answers,
as long as no module is refused because the chain is too long: what such a module is for the one that asks for it
depends on the way to it, and the one that asks for it may be kept nevertheless. -/

namespace XQuerySyntax.Loader

open Grammar

variable {π : Type} {l : Loader π} {sources : π} {catalog : Table String (List String)}

/-- Reading leaves the texts as they are. -/
def Steady (l : Loader π) (sources : π) : Prop := ∀ location, (l.provider.read location sources).2 = sources

/-- What a location comes to behind a chain of modules, if every import is read and parsed anew and the chain may
be of any length. The imports of its module are answered by whatever gives for them what they come to. -/
inductive Comes (l : Loader π) (sources : π) (catalog : Table String (List String)) :
    List String → String → Except ImportError ParsedModule → Prop
  | cycle {chain location} (hchain : location ∈ chain) :
    Comes l sources catalog chain location (.error (.cycle (chain ++ [location])))
  | unreadable {chain location e} (hchain : location ∉ chain)
    (hread : (l.provider.read location sources).1 = .error e) :
    Comes l sources catalog chain location (.error (.unreadable location e.message))
  | parsed {chain location text} {load : String → LoaderState π → Except ImportError ParsedModule × LoaderState π}
    {s : LoaderState π} (hchain : location ∉ chain)
    (hread : (l.provider.read location sources).1 = .ok text)
    (hkeeps : ∀ location s, (load location s).2.catalog = s.catalog) (hcatalog : s.catalog = catalog)
    (hcalls : ∀ call ∈ callsOf (importerOf load) (some .library) text (l.configAt location) s,
      Comes l sources catalog (chain ++ [location]) call.location call.outcome) :
    Comes l sources catalog chain location
      ((parseModuleWith (some (importerOf load)) (some .library) text (l.configAt location) s).1.mapError
        (.broken location))

/-! ### One answer -/

section

variable {load load' : String → LoaderState π → Except ImportError ParsedModule × LoaderState π}
  {s t : LoaderState π} {location : String} {outcome outcome' : Except ImportError ParsedModule}

/-- Two logs have different answers for one location. -/
def Disagree (i j : LoaderState π × List (Call (LoaderState π))) : Prop :=
  ∃ call ∈ i.2, ∃ call' ∈ j.2, call.location = call'.location ∧ call.outcome ≠ call'.outcome

theorem goesWith_of_catalog (hkeeps : ∀ location s, (load location s).2.catalog = s.catalog)
    (hkeeps' : ∀ location s, (load' location s).2.catalog = s.catalog) :
    (importerOf load).logged.GoesWith (fun i j => i.1.catalog = j.1.catalog) Disagree (importerOf load').logged where
  locate := by
    intro i j hij uri hints id
    change LoaderState.locate uri hints id i.1 = LoaderState.locate uri hints id j.1
    unfold LoaderState.locate
    rw [hij]
  load := by
    intro i j hij location
    by_cases hsame : (load location i.1).1 = (load' location j.1).1
    · refine .inl ⟨hsame, ?_⟩
      change (load location i.1).2.catalog = (load' location j.1).2.catalog
      rw [hkeeps, hkeeps', hij]
    · exact .inr ⟨_, List.mem_concat_self, _, List.mem_concat_self, rfl, hsame⟩
  left := by
    rintro i j ⟨call, hcall, call', hcall', hdiffer⟩ location
    exact ⟨call, List.mem_append_left _ hcall, call', hcall', hdiffer⟩
  right := by
    rintro i j ⟨call, hcall, call', hcall', hdiffer⟩ location
    exact ⟨call, hcall, call', List.mem_append_left _ hcall', hdiffer⟩

/-- A module comes out the same if its imports are answered alike, wherever the answers come from. -/
theorem parse_of_agree (hkeeps : ∀ location s, (load location s).2.catalog = s.catalog)
    (hkeeps' : ∀ location s, (load' location s).2.catalog = s.catalog) (hcatalog : s.catalog = t.catalog)
    {kind : Option ModuleKind} {text : String} {config : Config}
    (hagree : ∀ call ∈ callsOf (importerOf load) kind text config s,
      ∀ call' ∈ callsOf (importerOf load') kind text config t,
        call.location = call'.location → call.outcome = call'.outcome) :
    (parseModuleWith (some (importerOf load)) kind text config s).1 =
      (parseModuleWith (some (importerOf load')) kind text config t).1 := by
  have hparse := (goesWith_of_catalog hkeeps hkeeps').parse kind text config (i := (s, [])) (j := (t, [])) hcatalog
  rw [parse_logged, parse_logged] at hparse
  rcases hparse with ⟨hsame, -⟩ | ⟨call, hcall, call', hcall', hlocation, hdiffer⟩
  · exact hsame
  · exact absurd (hagree call hcall call' hcall' hlocation) hdiffer

/-- A location comes to one thing behind one chain. -/
theorem comes_unique {chain : List String} (h : l.Comes sources catalog chain location outcome)
    (h' : l.Comes sources catalog chain location outcome') : outcome = outcome' := by
  induction h generalizing outcome' with
  | cycle hchain =>
    cases h' with
    | cycle => rfl
    | unreadable hnot => exact absurd hchain hnot
    | parsed hnot => exact absurd hchain hnot
  | unreadable hnot hread =>
    cases h' with
    | cycle hchain => exact absurd hchain hnot
    | unreadable _ hread' =>
      cases hread.symm.trans hread'
      rfl
    | parsed _ hread' => exact nomatch hread.symm.trans hread'
  | @parsed chain location text load s hnot hread hkeeps hcatalog hcalls ih =>
    cases h' with
    | cycle hchain => exact absurd hchain hnot
    | unreadable _ hread' => exact nomatch hread.symm.trans hread'
    | @parsed _ _ text' load' s' _ hread' hkeeps' hcatalog' hcalls' =>
      cases hread.symm.trans hread'
      refine congrArg _ (parse_of_agree hkeeps hkeeps' (hcatalog.trans hcatalog'.symm) ?_)
      intro call hcall call' hcall' hlocation
      have hcomes := hcalls' call' hcall'
      rw [← hlocation] at hcomes
      exact ih call hcall hcomes

end

/-! ### Refusals -/

/-- Some module is refused because the chain is too long, while a location is loaded with room for so many more
modules. -/
def refusesWithin (l : Loader π) : Nat → String → LoaderState π → Bool
  | room, location, s =>
    if s.loading.contains location then false
    else
      match room with
      | 0 => true
      | room + 1 =>
        match s.cache.get? location with
        | some _ => false
        | none =>
          match l.provider.read location s.sources with
          | (.error _, _) => false
          | (.ok text, sources) =>
            (l.requestsAt room location text (s.entering location sources)).any fun call =>
              l.refusesWithin room call.location call.before

/-- Some module is refused while a main module is parsed. -/
def refusesMain (l : Loader π) (text : String) (location : Option String) (s : LoaderState π) : Bool :=
  (callsOf (importerOf l.load) (some .main) text (location.elim l.config l.configAt) s).any fun call =>
    l.refusesWithin (importLimit - call.before.loading.length) call.location call.before

/-- Some module is refused while a request is served. -/
def refuses (l : Loader π) (s : LoaderState π) : Request π → Bool
  | .load location => l.refusesWithin (importLimit - s.loading.length) location s
  | .compileMain text location => l.refusesMain text location s
  | .compileMainAt location =>
    match l.provider.read location s.sources with
    | (.error _, _) => false
    | (.ok text, sources) => l.refusesMain text (some location) { s with sources }
  | _ => false

/-- Some module is refused while requests are served, one behind the other. -/
def refusesAmong (l : Loader π) : List (Request π) → LoaderState π → Bool
  | [], _ => false
  | request :: requests, s => l.refuses s request || l.refusesAmong requests (l.serve s request)

/-! ### What is kept -/

/-- A chain that a loader may come with: its modules can be read, and none of them is kept yet. -/
def Free (l : Loader π) (sources : π) (s : LoaderState π) (chain : List String) : Prop :=
  ∀ location ∈ chain, s.cache.get? location = none ∧ ∃ text, (l.provider.read location sources).1 = .ok text

/-- The texts and the catalog are these, and what is kept for a location is what it comes to, whatever chain the
loader may come with. -/
structure Settled (l : Loader π) (sources : π) (catalog : Table String (List String)) (s : LoaderState π) :
    Prop where
  texts : s.sources = sources
  found : s.catalog = catalog
  chain : l.Free sources s s.loading
  kept : ∀ location m, s.cache.get? location = some m → ∀ chain, l.Free sources s chain →
    l.Comes sources catalog chain location (.ok m)

section

variable {s t : LoaderState π} {room : Nat} {location : String}

theorem Settled.leaving (h : l.Settled sources catalog s) : l.Settled sources catalog s.leaving where
  texts := h.texts
  found := h.found
  chain location hmem := h.chain location (List.dropLast_subset s.loading hmem)
  kept := h.kept

theorem Settled.entering (h : l.Settled sources catalog s) (hcache : s.cache.get? location = none) {text : String}
    (hread : (l.provider.read location sources).1 = .ok text) :
    l.Settled sources catalog (s.entering location sources) where
  texts := rfl
  found := h.found
  chain other hmem := by
    rcases List.mem_append.1 hmem with hmem | hmem
    · exact h.chain other hmem
    · obtain rfl := List.mem_singleton.1 hmem
      exact ⟨hcache, text, hread⟩
  kept := h.kept

/-- What was free with one module more kept was free before. -/
theorem free_of_keeping {m : ParsedModule} {chain : List String}
    (h : l.Free sources (s.keeping location m) chain) : location ∉ chain ∧ l.Free sources s chain := by
  have hother (other : String) (hmem : other ∈ chain) : location ≠ other ∧ s.cache.get? other = none := by
    have hnone := (h other hmem).1
    rw [LoaderState.keeping, Table.get?_put] at hnone
    split at hnone
    · cases hnone
    · exact ⟨‹_›, hnone⟩
  exact ⟨fun hmem => (hother location hmem).1 rfl, fun other hmem => ⟨(hother other hmem).2, (h other hmem).2⟩⟩

theorem Settled.keeping (h : l.Settled sources catalog s) (hchain : location ∉ s.loading) {m : ParsedModule}
    (hcomes : ∀ chain, location ∉ chain → l.Free sources s chain → l.Comes sources catalog chain location (.ok m)) :
    l.Settled sources catalog (s.keeping location m) where
  texts := h.texts
  found := h.found
  chain other hmem := by
    have hne : location ≠ other := (ne_of_mem_of_not_mem hmem hchain).symm
    rw [LoaderState.keeping, Table.get?_put, if_neg hne]
    exact h.chain other hmem
  kept other m' hother chain hfree := by
    obtain ⟨hnot, hbefore⟩ := free_of_keeping hfree
    rw [LoaderState.keeping, Table.get?_put] at hother
    split at hother
    · rename_i heq
      cases heq
      cases hother
      exact hcomes chain hnot hbefore
    · exact h.kept other m' hother chain hbefore

/-- If every request leaves the loader settled, all of them do, whatever comes between them. -/
theorem settled_of_answers {importer : Importer (LoaderState π)} {calls : List (Call (LoaderState π))}
    (h : importer.Answers s calls t) (hs : l.Settled sources catalog s)
    (hcalls : ∀ call ∈ calls, l.Settled sources catalog call.before →
      l.Comes sources catalog call.before.loading call.location call.outcome ∧
        l.Settled sources catalog call.after) :
    (∀ call ∈ calls, l.Comes sources catalog call.before.loading call.location call.outcome) ∧
      l.Settled sources catalog t := by
  induction h with
  | none => exact ⟨List.forall_mem_nil _, hs⟩
  | more _ _ ih =>
    obtain ⟨hearlier, hlast⟩ := List.forall_mem_append.1 hcalls
    obtain ⟨hcomes, hsettled⟩ := ih hearlier
    obtain ⟨hanswer, hafter⟩ := List.forall_mem_singleton.1 hlast hsettled
    exact ⟨List.forall_mem_append.2 ⟨hcomes, List.forall_mem_singleton.2 hanswer⟩, hafter⟩

/-- An answer that does not stop a module is the same behind every chain the loader may come with. -/
theorem comes_of_free {chain chain' : List String} {outcome : Except ImportError ParsedModule}
    (hs : l.Settled sources catalog s) (h : l.Comes sources catalog chain location outcome)
    (hkept : ∀ m, outcome = .ok m → s.cache.get? location = some m) (hstop : stopCode? outcome = none)
    (hfree : l.Free sources s chain') : l.Comes sources catalog chain' location outcome := by
  cases houtcome : outcome with
  | ok m => exact hs.kept location m (hkept m houtcome) chain' hfree
  | error e =>
    rw [← houtcome]
    cases h with
    | cycle => cases hstop
    | unreadable _ hread =>
      -- The modules of the chain can be read, so this is none of them.
      have hnot : location ∉ chain' := by
        intro hmem
        obtain ⟨-, text, htext⟩ := hfree location hmem
        exact nomatch hread.symm.trans htext
      exact .unreadable hnot hread
    | parsed =>
      rename_i text load s' _ _ _ _ _
      generalize (parseModuleWith (some (importerOf load)) (some .library) text (l.configAt location) s').1 = r
        at houtcome hstop
      cases r with
      | ok m => cases houtcome
      | error e => cases hstop

/-- The imports of a module come to what they come to when nothing is kept, if every load with as much room
does that refuses nothing. -/
theorem settled_parseAt (hload : ∀ location s, l.Settled sources catalog s → l.refusesWithin room location s = false →
      l.Comes sources catalog s.loading location (l.loadWithin room location s).1 ∧
        l.Settled sources catalog (l.loadWithin room location s).2)
    {text : String} (hs : l.Settled sources catalog s)
    (hroom : ∀ call ∈ l.requestsAt room location text s, l.refusesWithin room call.location call.before = false) :
    (∀ call ∈ l.requestsAt room location text s,
      l.Comes sources catalog s.loading call.location call.outcome) ∧
      l.Settled sources catalog (l.parseAt room location text s).2 := by
  have hanswers := answers_callsOf (importerOf (l.loadWithin room)) (some .library) text (l.configAt location) s
  obtain ⟨hcomes, hend⟩ := settled_of_answers hanswers hs fun call hcall hbefore => by
    have hnested := hload call.location call.before hbefore (hroom call hcall)
    rwa [(after_of_request hcall).1] at hnested
  refine ⟨fun call hcall => ?_, hend⟩
  have hloading : call.before.loading = s.loading := (after_of_request hcall).2.1.loading
  rw [← hloading]
  exact hcomes call hcall

theorem catalog_of_loadWithin (l : Loader π) (room : Nat) (location : String) (s : LoaderState π) :
    (l.loadWithin room location s).2.catalog = s.catalog := (after_loadWithin l room location s).catalog

/-- A module that has been parsed is the same behind every chain the loader may come with: what it imports is kept
by then or cannot be read. -/
theorem comes_of_parseAt {text : String} {m : ParsedModule} (hs : l.Settled sources catalog s)
    (hlocation : location ∈ s.loading) (hread : (l.provider.read location sources).1 = .ok text)
    (hm : (l.parseAt room location text s).1 = .ok m)
    (hcalls : ∀ call ∈ l.requestsAt room location text s,
      l.Comes sources catalog s.loading call.location call.outcome)
    (hend : l.Settled sources catalog (l.parseAt room location text s).2) {chain : List String}
    (hchain : location ∉ chain) (hfree : l.Free sources (l.parseAt room location text s).2 chain) :
    l.Comes sources catalog chain location (.ok m) := by
  have hloading := (after_parseAt l room location text s).loading
  have hlonger : l.Free sources (l.parseAt room location text s).2 (chain ++ [location]) :=
    List.forall_mem_append.2 ⟨hfree, List.forall_mem_singleton.2 (hend.chain location (hloading ▸ hlocation))⟩
  have hcomes := Comes.parsed hchain hread (catalog_of_loadWithin l room) hs.found fun call hcall => by
    obtain ⟨hload, -, hafter⟩ := after_of_request hcall
    refine comes_of_free hend (hcalls call hcall) (fun m' hm' => ?_) (calls_of_ok hm call hcall) hlonger
    rw [hm'] at hload
    exact hafter.kept (kept_of_loadWithin hload)
  rw [parseAt] at hm
  rwa [hm] at hcomes

/-- A load that refuses nothing gives what the location comes to when nothing is kept. -/
theorem comes_of_load (hsteady : l.Steady sources) (room : Nat) (location : String) (s : LoaderState π)
    (hs : l.Settled sources catalog s) (hroom : l.refusesWithin room location s = false) :
    l.Comes sources catalog s.loading location (l.loadWithin room location s).1 ∧
      l.Settled sources catalog (l.loadWithin room location s).2 := by
  -- The induction is on the room on the chain; the imports of the module have one place less.
  induction room generalizing location s with
  | zero =>
    have houtcome := outcome_loadWithin l 0 location s
    generalize l.loadWithin 0 location s = r at houtcome
    cases houtcome with
    | cycle hchain => exact ⟨.cycle hchain, hs⟩
    | tooDeep hchain =>
      have hcontains : s.loading.contains location = false := by simpa using hchain
      simp only [refusesWithin, hcontains, Bool.false_eq_true, if_false] at hroom
      cases hroom
  | succ room ih =>
    have hreads {r : Except SourceError String} {after : π}
        (hread : l.provider.read location s.sources = (r, after)) :
        (l.provider.read location sources).1 = r ∧ after = sources := by
      have hafter := hsteady location
      rw [← hs.texts, hread] at hafter ⊢
      exact ⟨rfl, hafter⟩
    -- What the parse of the module leads to, if there is one.
    have hparses {text : String} (hchain : location ∉ s.loading) (hcache : s.cache.get? location = none)
        (hread : l.provider.read location s.sources = (.ok text, sources)) :
        l.Settled sources catalog (s.entering location sources) ∧
        (∀ call ∈ l.requestsAt room location text (s.entering location sources),
          l.Comes sources catalog (s.loading ++ [location]) call.location call.outcome) ∧
        l.Settled sources catalog (l.parseAt room location text (s.entering location sources)).2 := by
      have hcontains : s.loading.contains location = false := by simpa using hchain
      simp only [refusesWithin, hcontains, Bool.false_eq_true, if_false, hcache, hread, List.any_eq_false,
        Bool.not_eq_true] at hroom
      have hentering := hs.entering hcache (hreads hread).1
      exact ⟨hentering, settled_parseAt ih hentering hroom⟩
    have houtcome := outcome_loadWithin l (room + 1) location s
    generalize l.loadWithin (room + 1) location s = r at houtcome
    cases houtcome with
    | cycle hchain => exact ⟨.cycle hchain, hs⟩
    | @cached _ _ _ m hchain hcache => exact ⟨hs.kept location m hcache s.loading hs.chain, hs⟩
    | unreadable hchain hcache hread =>
      obtain ⟨herror, rfl⟩ := hreads hread
      exact ⟨.unreadable hchain herror, ⟨rfl, hs.found, hs.chain, hs.kept⟩⟩
    | @broken _ _ _ text after e s' hchain hcache hread hparse =>
      obtain ⟨htext, rfl⟩ := hreads hread
      obtain ⟨hentering, hcalls, hend⟩ := hparses hchain hcache hread
      have hcomes := Comes.parsed hchain htext (catalog_of_loadWithin l room) hentering.found hcalls
      rw [hparse] at hcomes
      rw [parseAt, hparse] at hend
      exact ⟨hcomes, hend.leaving⟩
    | @parsed _ _ _ text after m s' hchain hcache hread hparse =>
      obtain ⟨htext, rfl⟩ := hreads hread
      obtain ⟨hentering, hcalls, hend⟩ := hparses hchain hcache hread
      -- So it is behind every chain, which is what keeping the module asks for.
      have hcomes {chain : List String} (hnot : location ∉ chain) := comes_of_parseAt hentering
        (List.mem_append_right _ (List.mem_singleton_self _)) htext (congrArg Prod.fst hparse) hcalls hend hnot
      have hloading := (after_parseAt l room location text (s.entering location after)).loading
      rw [parseAt, hparse] at hcomes hend hloading
      refine ⟨hcomes hchain fun other hmem => hend.chain other ?_, ?_⟩
      · rw [hloading]
        exact List.mem_append_left _ hmem
      · refine hend.leaving.keeping ?_ fun chain => hcomes
        rw [LoaderState.leaving, hloading, LoaderState.entering, List.dropLast_concat]
        exact hchain

/-! ### Requests -/

/-- A request that leaves the texts and the catalog as they are. -/
def Request.asksOnly : Request π → Bool
  | .register _ _ => false
  | .change _ => false
  | _ => true

theorem Settled.compileMain (hsteady : l.Steady sources) (hs : l.Settled sources catalog s) {text : String}
    {location : Option String} (hroom : l.refusesMain text location s = false) :
    l.Settled sources catalog (l.compileMain text location s).2 := by
  simp only [refusesMain, List.any_eq_false, Bool.not_eq_true] at hroom
  have hanswers := answers_callsOf (importerOf l.load) (some .main) text (location.elim l.config l.configAt) s
  refine (settled_of_answers hanswers hs fun call hcall hbefore => ?_).2
  obtain ⟨hload, -, -⟩ := hanswers.of_mem After.refl After.trans (after_load l) hcall
  have hcomes := comes_of_load hsteady _ call.location call.before hbefore (hroom call hcall)
  have hload' : l.loadWithin (importLimit - call.before.loading.length) call.location call.before =
      (call.outcome, call.after) := hload
  rwa [hload'] at hcomes

theorem settled_serve (hsteady : l.Steady sources) (hs : l.Settled sources catalog s) {request : Request π}
    (hasks : request.asksOnly = true) (hroom : l.refuses s request = false) :
    l.Settled sources catalog (l.serve s request) := by
  cases request with
  | load location => exact (comes_of_load hsteady _ location s hs hroom).2
  | compileMain text location => exact hs.compileMain hsteady hroom
  | compileMainAt location =>
    have hafter := hsteady location
    rw [← hs.texts] at hafter
    simp only [refuses, serve, Loader.compileMainAt] at hroom ⊢
    rcases hread : l.provider.read location s.sources with ⟨e | text, after⟩ <;> rw [hread] at hafter hroom <;>
      obtain rfl : after = s.sources := hafter
    · exact hs
    · exact hs.compileMain hsteady hroom
  | register => cases hasks
  | resolve => exact hs
  | clearCache =>
    exact ⟨hs.texts, hs.found, fun location hmem => ⟨rfl, (hs.chain location hmem).2⟩, fun _ _ hm => by cases hm⟩
  | change => cases hasks

theorem settled_run (hsteady : l.Steady sources) {requests later : List (Request π)}
    (hasks : ∀ request ∈ requests, request.asksOnly = true) (hs : l.Settled sources catalog s)
    (hroom : l.refusesAmong (requests ++ later) s = false) :
    l.Settled sources catalog (l.run requests s) ∧ l.refusesAmong later (l.run requests s) = false := by
  induction requests generalizing s with
  | nil => exact ⟨hs, hroom⟩
  | cons request requests ih =>
    obtain ⟨hfirst, hrest⟩ := List.forall_mem_cons.1 hasks
    obtain ⟨hhere, hlater⟩ := Bool.or_eq_false_iff.1 hroom
    exact ih hrest (settled_serve hsteady hs hfirst hhere) hlater

/-- A loader with this catalog that has parsed nothing. -/
def freshly (sources : π) (catalog : Table String (List String)) : LoaderState π := ⟨sources, catalog, [], []⟩

/-- What a location comes to does not depend on what the loader has been asked for before, whether it had to parse
the modules or had kept them, as long as no module is refused on either way because the chain is too long. A new
loader is the one that has been asked for nothing. -/
theorem load_forgets_requests (l : Loader π) (sources : π) (catalog : Table String (List String))
    (hsteady : l.Steady sources) (location : String) {requests requests' : List (Request π)}
    (hasks : ∀ request ∈ requests, request.asksOnly = true) (hasks' : ∀ request ∈ requests', request.asksOnly = true)
    (hroom : l.refusesAmong (requests ++ [.load location]) (freshly sources catalog) = false)
    (hroom' : l.refusesAmong (requests' ++ [.load location]) (freshly sources catalog) = false) :
    (l.load location (l.run requests (freshly sources catalog))).1 =
      (l.load location (l.run requests' (freshly sources catalog))).1 := by
  have hfresh : l.Settled sources catalog (freshly sources catalog) :=
    ⟨rfl, rfl, List.forall_mem_nil _, fun _ _ hm => nomatch hm⟩
  have hcomes {requests : List (Request π)} (hasks : ∀ request ∈ requests, request.asksOnly = true)
      (hroom : l.refusesAmong (requests ++ [.load location]) (freshly sources catalog) = false) :
      l.Comes sources catalog [] location (l.load location (l.run requests (freshly sources catalog))).1 := by
    obtain ⟨hsettled, hlast⟩ := settled_run hsteady hasks hfresh hroom
    have hidle : (l.run requests (freshly sources catalog)).loading = [] :=
      (idle_run ⟨rfl, fun hm => by cases hm⟩ requests).chain
    rw [← hidle]
    exact (comes_of_load hsteady _ location _ hsettled (Bool.or_eq_false_iff.1 hlast).1).1
  exact comes_unique (hcomes hasks hroom) (hcomes hasks' hroom')

end

theorem steady_inMemory (sources : MemorySources) : inMemory.Steady sources := by
  intro location
  change (MemorySources.provider.read location sources).2 = sources
  unfold MemorySources.provider
  dsimp only
  split <;> rfl

/-- A module that imports another one. -/
def importerAndImported : MemorySources :=
  [("a.xq", "module namespace a='urn:a'; import module namespace b='urn:b' at 'b.xq';"),
    ("b.xq", "module namespace b='urn:b'; declare function b:f() {1};")]

/-- Neither way to the module is too long. -/
theorem importerAndImported_leaves_room :
    inMemory.refusesAmong
        [.compileMain "import module namespace b='urn:b' at 'b.xq'; b:f()" none, .load "b.xq", .load "a.xq"]
        (freshly importerAndImported []) = false ∧
      inMemory.refusesAmong [.load "a.xq"] (freshly importerAndImported []) = false := by
  decide +kernel

/-- A module is the same behind a main module that has imported it as for a new loader. -/
theorem importing_module_is_the_same_again :
    (inMemory.load "a.xq" (inMemory.run
        [.compileMain "import module namespace b='urn:b' at 'b.xq'; b:f()" none, .load "b.xq"]
        (freshly importerAndImported []))).1 =
      (inMemory.load "a.xq" (inMemory.run [] (freshly importerAndImported []))).1 :=
  load_forgets_requests inMemory importerAndImported [] (steady_inMemory _) "a.xq"
    (by decide) (by decide) importerAndImported_leaves_room.1 importerAndImported_leaves_room.2

/-! ### A chain that leaves no room -/

/-- What an importer remembers that waits to be asked for one location. -/
inductive Errand where
  | waiting
  | asked
  /-- It has been asked for another location. -/
  | astray
  deriving DecidableEq

/-- An importer that refuses every module, and remembers whether it is asked for one location and no other. -/
def lookout (wanted : String) : Importer Errand where
  locate uri hints id _ := LoaderState.locate uri hints id (LoaderState.ofSources ())
  load location errand :=
    (.error (.tooDeep importLimit), if location = wanted ∧ errand ≠ .astray then .asked else .astray)

section

variable {load : String → LoaderState π → Except ImportError ParsedModule × LoaderState π} {s : LoaderState π}
  {wanted text : String} {kind : Option ModuleKind} {config : Config}

theorem locate_eq_of_catalog (hcatalog : s.catalog = []) (uri : String) (hints : List String) (id : ModuleId) :
    LoaderState.locate uri hints id s = LoaderState.locate uri hints id (LoaderState.ofSources ()) := by
  unfold LoaderState.locate
  rw [hcatalog]
  rfl

/-- A module asks a loader for what it asks the lookout for. If the loader refuses this too, the module comes out
the same. -/
theorem parse_of_refused (hcatalog : s.catalog = []) (hload : load wanted s = (.error (.tooDeep importLimit), s))
    (hasked : (parseModuleWith (some (lookout wanted)) kind text config .waiting).2 = .asked) :
    (parseModuleWith (some (importerOf load)) kind text config s).1 =
      (parseModuleWith (some (lookout wanted)) kind text config .waiting).1 := by
  have hgoes : (importerOf load).GoesWith (fun i j => i = s ∧ j ≠ .astray) (fun _ j => j = .astray)
      (lookout wanted) := by
    refine ⟨?_, ?_, fun h _ => h, ?_⟩
    · rintro _ j ⟨rfl, -⟩ uri hints id
      exact locate_eq_of_catalog hcatalog uri hints id
    · rintro _ j ⟨rfl, hj⟩ location
      by_cases hlocation : location = wanted
      · subst hlocation
        refine .inl ?_
        change (load location _).1 = _ ∧ (load location _).2 = _ ∧ _
        rw [hload]
        exact ⟨rfl, rfl, by simp [lookout, hj]⟩
      · exact .inr (if_neg fun h => hlocation h.1)
    · rintro i _ rfl location
      exact if_neg fun h => h.2 rfl
  rcases hgoes.parse kind text config (i := s) (j := .waiting) ⟨rfl, by decide⟩ with ⟨hsame, -⟩ | hastray
  · exact hsame
  · cases hasked.symm.trans hastray

/-- A module asks a loader for what it asks the lookout for. What this load makes true, and no other undoes, is
true behind the module. -/
theorem during_of_asked {during : LoaderState π → Prop} (hcatalog : s.catalog = [])
    (hload : during (load wanted s).2) (hkeeps : ∀ location s, during s → during (load location s).2)
    (hasked : (parseModuleWith (some (lookout wanted)) kind text config .waiting).2 = .asked) :
    during (parseModuleWith (some (importerOf load)) kind text config s).2 := by
  have hgoes : (importerOf load).GoesWith (fun i j => i = s ∧ j = .waiting)
      (fun i j => j = .astray ∨ j = .asked ∧ during i) (lookout wanted) := by
    refine ⟨?_, ?_, ?_, ?_⟩
    · rintro _ j ⟨rfl, -⟩ uri hints id
      exact locate_eq_of_catalog hcatalog uri hints id
    · rintro _ _ ⟨rfl, rfl⟩ location
      by_cases hlocation : location = wanted
      · subst hlocation
        exact .inr (.inr ⟨by simp [lookout], hload⟩)
      · exact .inr (.inl (if_neg fun h => hlocation h.1))
    · rintro i j (hastray | ⟨hasked, hduring⟩) location
      · exact .inl hastray
      · exact .inr ⟨hasked, hkeeps location i hduring⟩
    · rintro i j (rfl | ⟨rfl, hduring⟩) location
      · exact .inl (if_neg fun h => h.2 rfl)
      · by_cases hlocation : location = wanted
        · exact .inr ⟨by simp [lookout, hlocation], hduring⟩
        · exact .inl (if_neg fun h => hlocation h.1)
  rcases hgoes.parse kind text config ⟨rfl, rfl⟩ with ⟨-, -, hwaiting⟩ | hastray | ⟨-, hduring⟩
  · cases hasked.symm.trans hwaiting
  · cases hasked.symm.trans hastray
  · exact hduring

end

/-- Modules in a row, each of which imports the next one. The last of them imports a module that is missing. -/
def modulesInARow (n : Nat) : MemorySources :=
  (List.range n).map fun i =>
    (toString i, "module namespace m=\"m\";import module\"m\"at\"" ++ toString (i + 1) ++ "\";")

/-- The text of a module in the row. -/
def textInARow (i : Nat) : String :=
  "module namespace m=\"m\";import module\"m\"at\"" ++ toString (i + 1) ++ "\";"

theorem toString_inj {i j : Nat} (h : toString i = toString j) : i = j := by
  have hdigits : Nat.toDigits 10 i = Nat.toDigits 10 j := by
    rw [← Nat.toList_repr, ← Nat.toList_repr]
    exact congrArg String.toList h
  rw [← @Nat.ofDigitChars_ten_toDigits i, hdigits, Nat.ofDigitChars_ten_toDigits]

theorem get?_modulesInARow {n i : Nat} (hi : i < n) :
    Table.get? (modulesInARow n) (toString i) = some (textInARow i) := by
  have hrow (is : List Nat) (hmem : i ∈ is) :
      Table.get? (is.map fun i => (toString i, textInARow i)) (toString i) = some (textInARow i) := by
    induction is with
    | nil => cases hmem
    | cons j is ih =>
      rw [List.map_cons, Table.get?_cons]
      split
      · rename_i heq
        rw [toString_inj heq]
      · rename_i hne
        refine ih ((List.mem_cons.1 hmem).resolve_left ?_)
        rintro rfl
        exact hne rfl
  exact hrow _ (List.mem_range.2 hi)

/-- Whether a library of these characters asks for a location and for no other. -/
def asksFor (chars : List Char) (location wanted : String) : Bool :=
  (moduleUnit (some (lookout wanted)) (some .library) true
    (.ofChars chars (inMemory.configAt location), .waiting)).state.2 = .asked

/-- The characters of a module in the row. -/
def charsInARow (i : Nat) : List Char :=
  "module namespace m=\"m\";import module\"m\"at\"".toList ++ Nat.toDigits 10 (i + 1) ++ "\";".toList

set_option maxRecDepth 100000 in
theorem asksFor_charsInARow :
    ∀ i < 100, asksFor (charsInARow i) (toString i) (toString (i + 1)) = true := by
  decide +kernel

theorem snd_parseModuleWith {σ : Type} (importer : Option (Importer σ)) (kind : Option ModuleKind) (text : String)
    (config : Config) (i : σ) : (parseModuleWith importer kind text config i).2 =
      (moduleUnit importer kind config.sourceUri.isSome (.ofText text config, i)).state.2 := by
  unfold parseModuleWith
  cases moduleUnit importer kind config.sourceUri.isSome (.ofText text config, i) <;> rfl

/-- Each module in the row asks for the next one. -/
theorem asked_inARow {i : Nat} (hi : i < 100) :
    (parseModuleWith (some (lookout (toString (i + 1)))) (some .library) (textInARow i)
      (inMemory.configAt (toString i)) .waiting).2 = .asked := by
  have hchars : (textInARow i).toList = charsInARow i := by
    unfold textInARow charsInARow
    rw [String.toList_append, String.toList_append, Nat.toString_eq_repr, Nat.toList_repr]
  have hstart : ParserState.ofText (textInARow i) (inMemory.configAt (toString i)) =
      .ofChars (charsInARow i) (inMemory.configAt (toString i)) := by
    rw [← hchars]
    rfl
  rw [snd_parseModuleWith, hstart]
  exact of_decide_eq_true (asksFor_charsInARow i hi)

/-- A loader on which no module is being parsed leaves room for as many as may stand on a chain. -/
theorem run_load (l : Loader π) {room : Nat} (hroom : room = importLimit) (location : String) (sources : π)
    (catalog : Table String (List String)) :
    l.run [.load location] (freshly sources catalog) = (l.finish ⟨room, location, freshly sources catalog⟩).2 := by
  subst hroom
  rfl

/-- The module one before the last is kept, and it has been told that there is no module behind it. -/
def ToldOfNone (s : LoaderState MemorySources) : Prop :=
  ∃ m, s.cache.get? (toString 99) = some m ∧ m.diagnostics.map Diagnostic.code = [.moduleNotFound]

theorem ToldOfNone.after {s t : LoaderState MemorySources} (h : ToldOfNone s) (hafter : inMemory.After s t) :
    ToldOfNone t := by
  obtain ⟨m, hm, hcodes⟩ := h
  exact ⟨m, hafter.kept hm, hcodes⟩

set_option maxRecDepth 100000 in
/-- The module one before the last, behind a chain that leaves room for it alone. -/
theorem exists_last_inARow : ∃ m,
    (parseModuleWith (some (lookout (toString 100))) (some .library) (textInARow 99)
      (inMemory.configAt (toString 99)) .waiting).1 = .ok m ∧
      m.diagnostics.map Diagnostic.code = [.moduleNotFound] := by
  obtain ⟨m, hm, hcodes⟩ := exists_ok_of_any (r := (parseModuleWith (some (lookout (toString 100)))
    (some .library) (textInARow 99) (inMemory.configAt (toString 99)) .waiting).1)
    (fun m => m.diagnostics.map Diagnostic.code = [.moduleNotFound]) (by decide +kernel)
  exact ⟨m, hm, of_decide_eq_true hcodes⟩

theorem not_mem_chain {i j : Nat} (hij : i ≤ j) : toString j ∉ (List.range i).map toString := by
  intro hmem
  obtain ⟨k, hk, heq⟩ := List.mem_map.1 hmem
  have := List.mem_range.1 hk
  have := toString_inj heq
  omega

/-- A module of the row is read behind the chain of those in front of it. -/
theorem enters_inARow (n : Nat) {i : Nat} (hi : i < 101) {s : LoaderState MemorySources}
    (hsources : s.sources = modulesInARow 101) (hcache : s.cache = [])
    (hloading : s.loading = (List.range i).map toString) :
    inMemory.Enters ⟨n + 1, toString i, s⟩ n (textInARow i) s.sources := by
  refine ⟨rfl, ?_, by rw [hcache]; rfl, ?_⟩
  · rw [hloading]
    exact not_mem_chain (Nat.le_refl i)
  · change MemorySources.provider.read (toString i) s.sources = _
    unfold MemorySources.provider
    dsimp only
    rw [hsources, get?_modulesInARow hi]

/-- Whichever module of the row is loaded behind the chain of those in front of it, the one before the last is told
that there is no module behind it. -/
theorem toldOfNone_of_chain (n : Nat) {i : Nat} (hi : i + n = 99) {s : LoaderState MemorySources}
    (hsources : s.sources = modulesInARow 101) (hcatalog : s.catalog = []) (hcache : s.cache = [])
    (hloading : s.loading = (List.range i).map toString) :
    ToldOfNone (inMemory.finish ⟨n + 1, toString i, s⟩).2 := by
  -- The induction is on the room that the chain leaves behind the module.
  induction n generalizing i s with
  | zero =>
    obtain rfl : i = 99 := hi
    obtain ⟨m, hm, hcodes⟩ := exists_last_inARow
    have hchain : (s.entering (toString 99) s.sources).loading = (List.range 100).map toString := by
      rw [List.range_succ, List.map_append, ← hloading]
      rfl
    have hrefused : inMemory.loadWithin 0 (toString 100) (s.entering (toString 99) s.sources) =
        (.error (.tooDeep importLimit), s.entering (toString 99) s.sources) := by
      have hcontains : (s.entering (toString 99) s.sources).loading.contains (toString 100) = false := by
        rw [hchain, List.contains_eq_mem, decide_eq_false_iff_not]
        exact not_mem_chain (Nat.le_refl 100)
      simp only [loadWithin, hcontains, Bool.false_eq_true, if_false]
    have hsame : (inMemory.parseAt 0 (toString 99) (textInARow 99) (s.entering (toString 99) s.sources)).1 =
        (parseModuleWith (some (lookout (toString 100))) (some .library) (textInARow 99)
          (inMemory.configAt (toString 99)) .waiting).1 :=
      parse_of_refused hcatalog hrefused (asked_inARow (by decide))
    have hparse := hsame.trans hm
    rw [(enters_inARow 0 (by decide) hsources hcache hloading).finish]
    rcases hr : inMemory.parseAt 0 (toString 99) (textInARow 99) (s.entering (toString 99) s.sources) with ⟨_, s'⟩
    rw [hr] at hparse
    obtain rfl := hparse
    exact ⟨m, (Table.get?_put _ _ _ _).trans (if_pos rfl), hcodes⟩
  | succ n ih =>
    have hchain : (s.entering (toString i) s.sources).loading = (List.range (i + 1)).map toString := by
      rw [List.range_succ, List.map_append, ← hloading]
      rfl
    have hnext : ToldOfNone (inMemory.loadWithin (n + 1) (toString (i + 1)) (s.entering (toString i) s.sources)).2 :=
      ih (by omega) hsources hcatalog hcache hchain
    have hparse : ToldOfNone
        (inMemory.parseAt (n + 1) (toString i) (textInARow i) (s.entering (toString i) s.sources)).2 :=
      during_of_asked hcatalog hnext (fun location t ht => ht.after (after_loadWithin inMemory (n + 1) location t))
        (asked_inARow (by omega))
    rw [(enters_inARow (n + 1) (by omega) hsources hcache hloading).finish]
    rcases hr : inMemory.parseAt (n + 1) (toString i) (textInARow i) (s.entering (toString i) s.sources) with
      ⟨_ | m', s'⟩ <;> rw [hr] at hparse
    · exact hparse
    · obtain ⟨m, hm, hcodes⟩ := hparse
      have hne : toString i ≠ toString 99 := fun h => absurd (toString_inj h) (by omega)
      exact ⟨m, (Table.get?_put _ _ _ _).trans ((if_neg hne).trans hm), hcodes⟩

set_option maxRecDepth 100000 in
/-- The module one before the last imports a module that is there. It has been told that there is none, though,
when the loader came to it at the end of a chain that leaves no room for one more, and so it is kept. -/
theorem refusal_is_kept_with_the_module :
    ((inMemory.load "99" (inMemory.run [.load "0"] (freshly (modulesInARow 101) []))).1.toOption.map fun m =>
        m.diagnostics.map Diagnostic.code) = some [.moduleNotFound] ∧
      ((inMemory.load "99" (freshly (modulesInARow 101) [])).1.toOption.map fun m =>
        m.diagnostics.map Diagnostic.code) = some [] := by
  have hfirst : toString 0 = "0" := rfl
  have hlast : toString 99 = "99" := rfl
  have htold : ToldOfNone (inMemory.finish ⟨99 + 1, toString 0, freshly (modulesInARow 101) []⟩).2 :=
    toldOfNone_of_chain 99 (by decide) rfl rfl rfl rfl
  have hloading := (after_finish inMemory ⟨99 + 1, "0", freshly (modulesInARow 101) []⟩).loading
  rw [hfirst] at htold
  refine ⟨?_, by decide +kernel⟩
  rw [run_load inMemory (by decide : 99 + 1 = importLimit)]
  -- Of the state behind the first load no more than this matters.
  generalize (inMemory.finish ⟨99 + 1, "0", freshly (modulesInARow 101) []⟩).2 = s at htold hloading ⊢
  obtain ⟨m, hm, hcodes⟩ := htold
  have hidle : s.loading = [] := hloading
  have hroom : importLimit - s.loading.length ≠ 0 := by
    rw [hidle]
    decide
  rw [hlast] at hm
  rw [load, loadWithin_of_cached hroom (by rw [hidle]; exact List.not_mem_nil) hm]
  exact congrArg some hcodes

end XQuerySyntax.Loader
