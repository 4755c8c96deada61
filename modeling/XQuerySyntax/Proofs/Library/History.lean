import Mathlib.Logic.Relation
import XQuerySyntax.Proofs.Library.Loading

/-! What a loader goes through. Every load is made with a chain of distinct locations that is short enough;
the loads that it leads to are made with the chain that is one location longer. -/

namespace XQuerySyntax

open Grammar

variable {π : Type}

/-- What is kept in the first state is kept in the second. -/
def LoaderState.CachedIn (s t : LoaderState π) : Prop :=
  ∀ location m, s.cache.get? location = some m → t.cache.get? location = some m

/-- The chain is one of distinct locations and not too long, and what is kept for a location is a library
by that name. -/
structure LoaderState.Orderly (s : LoaderState π) : Prop where
  distinct : s.loading.Nodup
  short : s.loading.length ≤ importLimit
  named : ∀ location m, s.cache.get? location = some m →
    m.id = ⟨location⟩ ∧ ∃ qualifier uri prolog, m.module = .library qualifier uri prolog

namespace Loader

/-! ### Loads and the loads they lead to -/

/-- A load that is asked for: how many more modules the chain has room for, what is asked for, and where the
loader is. -/
structure Load (π : Type) where
  room : Nat
  location : String
  state : LoaderState π

/-- What a load comes to. -/
def finish (l : Loader π) (a : Load π) : Except ImportError ParsedModule × LoaderState π :=
  l.loadWithin a.room a.location a.state

/-- The location has to be read. -/
structure Opens (a : Load π) : Prop where
  room : a.room ≠ 0
  chain : a.location ∉ a.state.loading
  cache : a.state.cache.get? a.location = none

/-- The location is read, and the text there is parsed. -/
structure Enters (l : Loader π) (a : Load π) (room : Nat) (text : String) (sources : π) : Prop where
  room : a.room = room + 1
  chain : a.location ∉ a.state.loading
  cache : a.state.cache.get? a.location = none
  read : l.provider.read a.location a.state.sources = (.ok text, sources)

/-- The parse of the text at a location, with room for so many more modules. -/
def parseAt (l : Loader π) (room : Nat) (location text : String) (s : LoaderState π) :
    Except ParseError ParsedModule × LoaderState π :=
  parseModuleWith (some (importerOf (l.loadWithin room))) (some .library) text (l.configAt location) s

/-- The loads that the text at a location asks for, in their order. -/
def requestsAt (l : Loader π) (room : Nat) (location text : String) (s : LoaderState π) :
    List (Call (LoaderState π)) :=
  callsOf (importerOf (l.loadWithin room)) (some .library) text (l.configAt location) s

/-- The first load parses a module that asks for the second. -/
inductive Asks (l : Loader π) : Load π → Load π → Prop
  | nested {a room text sources call} (h : l.Enters a room text sources)
    (hcall : call ∈ l.requestsAt room a.location text (a.state.entering a.location sources)) :
    Asks l a ⟨room, call.location, call.before⟩

/-- The states of the loader in which a load begins and ends, and reads and parses the module in between. -/
inductive Moment (l : Loader π) : Load π → LoaderState π → Prop
  | before (a : Load π) : Moment l a a.state
  | entered {a} (h : Opens a) : Moment l a (a.state.entering a.location a.state.sources)
  | read {a} (h : Opens a) :
    Moment l a (a.state.entering a.location (l.provider.read a.location a.state.sources).2)
  | parsed {a room text sources} (h : l.Enters a room text sources) :
    Moment l a (l.parseAt room a.location text (a.state.entering a.location sources)).2
  | left {a room text sources} (h : l.Enters a room text sources) :
    Moment l a (l.parseAt room a.location text (a.state.entering a.location sources)).2.leaving
  | after (a : Load π) : Moment l a (l.finish a).2

/-- The loader comes through a state while a load is made, or one that it leads to. -/
def Passes (l : Loader π) (a : Load π) (t : LoaderState π) : Prop :=
  ∃ b, Relation.ReflTransGen l.Asks a b ∧ l.Moment b t

section

variable {l : Loader π} {a b : Load π} {s t : LoaderState π}

theorem Enters.opens {room : Nat} {text : String} {sources : π} (h : l.Enters a room text sources) : Opens a :=
  ⟨h.room ▸ Nat.succ_ne_zero _, h.chain, h.cache⟩

theorem after_parseAt (l : Loader π) (room : Nat) (location text : String) (s : LoaderState π) :
    l.After s (l.parseAt room location text s).2 := after_parseWithin (Prod.ext rfl rfl)

theorem after_finish (l : Loader π) (a : Load π) : l.After a.state (l.finish a).2 := after_loadWithin l _ _ _

/-- The requests of a module stand between the beginning and the end of its parse. -/
theorem after_of_request {room : Nat} {location text : String} {call : Call (LoaderState π)}
    (hcall : call ∈ l.requestsAt room location text s) :
    l.loadWithin room call.location call.before = (call.outcome, call.after) ∧ l.After s call.before ∧
      l.After call.after (l.parseAt room location text s).2 := by
  have hanswers := answers_callsOf (importerOf (l.loadWithin room)) (some .library) text (l.configAt location) s
  exact hanswers.of_mem After.refl After.trans (after_loadWithin l room) hcall

/-- What a load comes to that enters a module. -/
theorem Enters.finish {room : Nat} {text : String} {sources : π} (h : l.Enters a room text sources) :
    l.finish a =
      match l.parseAt room a.location text (a.state.entering a.location sources) with
      | (.ok m, s) => (.ok m, s.leaving.keeping a.location m)
      | (.error e, s) => (.error (.broken a.location e), s.leaving) := by
  obtain ⟨room', location, s⟩ := a
  obtain ⟨rfl, hchain, hcache, hread⟩ := h
  have houtcome := outcome_loadWithin l (room + 1) location s
  unfold Loader.finish parseAt
  generalize l.loadWithin (room + 1) location s = r at houtcome
  cases houtcome with
  | cycle h => exact absurd h hchain
  | cached _ h => exact nomatch hcache.symm.trans h
  | unreadable _ _ h => exact nomatch hread.symm.trans h
  | broken _ _ h hparse =>
    cases hread.symm.trans h
    rw [hparse]
  | parsed _ _ h hparse =>
    cases hread.symm.trans h
    rw [hparse]

/-! ### What is kept -/

theorem cachedIn_refl (s : LoaderState π) : s.CachedIn s := fun _ _ hm => hm

theorem cachedIn_trans {s₁ s₂ s₃ : LoaderState π} (h : s₁.CachedIn s₂) (h' : s₂.CachedIn s₃) : s₁.CachedIn s₃ :=
  fun location m hm => h' location m (h location m hm)

theorem After.cachedIn (h : l.After s t) : s.CachedIn t := fun _ _ => h.kept

/-- Nothing is kept for a location while its module is parsed, so nothing is lost when the module is put
there. -/
theorem Enters.cachedIn {room : Nat} {text : String} {sources : π} (h : l.Enters a room text sources) :
    (l.parseAt room a.location text (a.state.entering a.location sources)).2.CachedIn (l.finish a).2 := by
  have hafter := after_parseAt l room a.location text (a.state.entering a.location sources)
  rw [h.finish]
  generalize l.parseAt room a.location text (a.state.entering a.location sources) = r at hafter
  rcases r with ⟨e | m, s⟩
  · exact cachedIn_refl _
  · intro location m' hm'
    have hnone : s.cache.get? a.location = none :=
      (hafter.chain (List.mem_append_right _ (List.mem_singleton_self _))).trans h.cache
    have hne : a.location ≠ location := by
      rintro rfl
      exact absurd (hnone.symm.trans hm') (Option.some_ne_none m').symm
    dsimp only
    rwa [LoaderState.keeping, Table.get?_put, if_neg hne]

/-- A load loses nothing, and nor do the loads that it leads to. -/
theorem Moment.cachedIn (h : l.Moment a t) : a.state.CachedIn t ∧ t.CachedIn (l.finish a).2 := by
  have hfinish := (after_finish l a).cachedIn
  cases h with
  | before => exact ⟨cachedIn_refl _, hfinish⟩
  | entered => exact ⟨cachedIn_refl _, hfinish⟩
  | read => exact ⟨cachedIn_refl _, hfinish⟩
  | @parsed room text sources h =>
    have hparse := after_parseAt l room a.location text (a.state.entering a.location sources)
    exact ⟨fun _ _ hm => hparse.kept hm, h.cachedIn⟩
  | @left room text sources h =>
    have hparse := after_parseAt l room a.location text (a.state.entering a.location sources)
    exact ⟨fun _ _ hm => hparse.kept hm, h.cachedIn⟩
  | after => exact ⟨hfinish, cachedIn_refl _⟩

theorem Asks.cachedIn (h : l.Asks a b) : a.state.CachedIn b.state ∧ (l.finish b).2.CachedIn (l.finish a).2 := by
  cases h with
  | nested h hcall =>
    obtain ⟨hload, hbefore, hafter⟩ := after_of_request hcall
    refine ⟨hbefore.cachedIn, cachedIn_trans ?_ h.cachedIn⟩
    rw [finish, hload]
    exact hafter.cachedIn

theorem Passes.cachedIn (h : l.Passes a t) : a.state.CachedIn t ∧ t.CachedIn (l.finish a).2 := by
  obtain ⟨b, hb, hmoment⟩ := h
  -- The induction is on the way to the load from the outermost one.
  induction hb using Relation.ReflTransGen.head_induction_on with
  | refl => exact hmoment.cachedIn
  | head hasks _ ih =>
    obtain ⟨hbegin, hend⟩ := hasks.cachedIn
    exact ⟨cachedIn_trans hbegin ih.1, cachedIn_trans ih.2 hend⟩

/-! ### The chain -/

/-- A load as the loader makes it: the chain is in order, and there is room for so many more modules. -/
structure Fits (l : Loader π) (a : Load π) : Prop where
  distinct : a.state.loading.Nodup
  short : a.state.loading.length + a.room ≤ importLimit
  faithful : l.Faithful a.state

/-- What is kept was parsed for its location, so it has its name. -/
theorem named_of_faithful (h : l.Faithful s) (location : String) (m : ParsedModule)
    (hm : s.cache.get? location = some m) :
    m.id = ⟨location⟩ ∧ ∃ qualifier uri prolog, m.module = .library qualifier uri prolog := by
  obtain ⟨importer, text, i, hparse⟩ := h hm
  exact library_of_parse rfl hparse

theorem Fits.orderly (h : l.Fits a) : a.state.Orderly :=
  ⟨h.distinct, Nat.le_of_add_right_le h.short, named_of_faithful h.faithful⟩

theorem nodup_concat {locations : List String} {location : String} (h : locations.Nodup) (ha : location ∉ locations) :
    (locations ++ [location]).Nodup := by
  refine List.nodup_append.2 ⟨h, List.pairwise_singleton _ _, fun b hb c hc => ?_⟩
  obtain rfl := List.mem_singleton.1 hc
  exact ne_of_mem_of_not_mem hb ha

/-- The module that is being loaded is on the chain for the loads that it asks for. -/
theorem fits_of_asks (ha : l.Fits a) (h : l.Asks a b) : l.Fits b := by
  cases h with
  | @nested room text sources call h hcall =>
    obtain ⟨-, hbefore, -⟩ := after_of_request hcall
    have hloading : call.before.loading = a.state.loading ++ [a.location] := hbefore.loading
    have hroom := h.room
    have hshort := ha.short
    have hfaithful : l.Faithful (a.state.entering a.location sources) := ha.faithful
    refine ⟨?_, ?_, hfaithful.after hbefore⟩
    · dsimp only
      rw [hloading]
      exact nodup_concat ha.distinct h.chain
    · dsimp only
      rw [hloading, List.length_append, List.length_singleton]
      omega

theorem fits_of_within (ha : l.Fits a) (h : Relation.ReflTransGen l.Asks a b) : l.Fits b := by
  induction h with
  | refl => exact ha
  | tail _ hasks ih => exact fits_of_asks ih hasks

theorem orderly_of_after (h : l.Fits a) (ht : l.After a.state t) : t.Orderly where
  distinct := ht.loading ▸ h.distinct
  short := ht.loading ▸ Nat.le_of_add_right_le h.short
  named := named_of_faithful (Faithful.after h.faithful ht)

/-- With the module on it the chain is still in order, and not too long. -/
theorem orderly_entering (h : l.Fits a) (ho : Opens a) {sources : π}
    (ht : l.After (a.state.entering a.location sources) t) : t.Orderly where
  distinct := by
    rw [ht.loading]
    exact nodup_concat h.distinct ho.chain
  short := by
    have hloading : t.loading = a.state.loading ++ [a.location] := ht.loading
    have hshort := h.short
    have hroom := Nat.pos_of_ne_zero ho.room
    rw [hloading, List.length_append, List.length_singleton]
    omega
  named := by
    have hfaithful : l.Faithful (a.state.entering a.location sources) := h.faithful
    exact named_of_faithful (hfaithful.after ht)

theorem orderly_of_moment (ha : l.Fits a) (h : l.Moment a t) : t.Orderly := by
  cases h with
  | before => exact ha.orderly
  | entered h => exact orderly_entering ha h (.refl _)
  | read h => exact orderly_entering ha h (.refl _)
  | parsed h => exact orderly_entering ha h.opens (after_parseAt l _ _ _ _)
  | left h => exact orderly_of_after ha (after_parseAt l _ _ _ _).leaving
  | after => exact orderly_of_after ha (after_finish l a)

theorem orderly_of_passes (ha : l.Fits a) (h : l.Passes a t) : t.Orderly := by
  obtain ⟨b, hb, hmoment⟩ := h
  exact orderly_of_moment (fits_of_within ha hb) hmoment

end

/-! ### Requests from outside -/

/-- What a loader is asked from outside, and what may happen to the texts in between. -/
inductive Request (π : Type) where
  | load (location : String)
  | compileMain (text : String) (location : Option String)
  | compileMainAt (location : String)
  | register (uri location : String)
  | resolve (uri : String) (hints : List String) (importer : ModuleId)
  | clearCache
  | change (sources : π)

/-- Where a request leaves the loader. -/
def serve (l : Loader π) (s : LoaderState π) : Request π → LoaderState π
  | .load location => (l.load location s).2
  | .compileMain text location => (l.compileMain text location s).2
  | .compileMainAt location => (l.compileMainAt location s).2
  | .register uri location => s.register uri location
  | .resolve _ _ _ => s
  | .clearCache => s.clearCache
  | .change sources => { s with sources }

/-- Where several requests leave it. -/
def run (l : Loader π) (requests : List (Request π)) (s : LoaderState π) : LoaderState π := requests.foldl l.serve s

/-- The loads that a request makes itself; they lead to others. -/
inductive Makes (l : Loader π) : Request π → LoaderState π → Load π → Prop
  | load {location s} : Makes l (.load location) s ⟨importLimit - s.loading.length, location, s⟩
  | compileMain {text location s call}
    (hcall : call ∈ callsOf (importerOf l.load) (some .main) text (location.elim l.config l.configAt) s) :
    Makes l (.compileMain text location) s
      ⟨importLimit - call.before.loading.length, call.location, call.before⟩
  | compileMainAt {location s text sources a} (hread : l.provider.read location s.sources = (.ok text, sources))
    (h : Makes l (.compileMain text (some location)) { s with sources } a) : Makes l (.compileMainAt location) s a

/-- While a request is served the loader stays in order. -/
structure Served (l : Loader π) (s : LoaderState π) (request : Request π) : Prop where
  /-- The chain is as it was. -/
  chain : (l.serve s request).loading = s.loading
  orderly : (l.serve s request).Orderly
  /-- Nothing that is kept is lost or replaced. -/
  kept : request ≠ .clearCache → s.CachedIn (l.serve s request)
  /-- So it is at every moment on the way. -/
  moments : ∀ a, l.Makes request s a → ∀ t, l.Passes a t →
    t.Orderly ∧ s.CachedIn t ∧ t.CachedIn (l.serve s request)
  /-- Every load on the way leaves the chain as it was, and one that fails leaves nothing under its location. -/
  loads : ∀ a, l.Makes request s a → ∀ b, Relation.ReflTransGen l.Asks a b →
    (l.finish b).2.loading = b.state.loading ∧
    (∀ t, l.Passes b t → b.state.CachedIn t ∧ t.CachedIn (l.finish b).2) ∧
    ∀ e, (l.finish b).1 = .error e → (l.finish b).2.cache.get? b.location = b.state.cache.get? b.location

section

variable {l : Loader π} {a b : Load π} {s t : LoaderState π} {request : Request π}

/-- Between requests nothing is being loaded, and what is kept was parsed for its location. -/
structure Idle (l : Loader π) (s : LoaderState π) : Prop where
  chain : s.loading = []
  faithful : l.Faithful s

theorem Idle.after (h : l.Idle s) (ha : l.After s t) : l.Idle t :=
  ⟨ha.loading.trans h.chain, Faithful.after h.faithful ha⟩

/-- The texts that a provider has play no part in what is kept. -/
theorem After.of_sources {sources : π} (h : l.After { s with sources } t) : l.After s t :=
  ⟨h.loading, h.catalog, h.kept, h.chain, h.new⟩

theorem after_compileMain (l : Loader π) (text : String) (location : Option String) (s : LoaderState π) :
    l.After s (l.compileMain text location s).2 := after_parse (after_load l) _ _ _ _

theorem after_compileMainAt (l : Loader π) (location : String) (s : LoaderState π) :
    l.After s (l.compileMainAt location s).2 := by
  unfold compileMainAt
  rcases l.provider.read location s.sources with ⟨e | text, sources⟩
  · exact (After.refl { s with sources }).of_sources
  · exact (after_compileMain l text (some location) { s with sources }).of_sources

/-- The loads that a request makes stand between its beginning and its end, with the room that is left on
the chain. -/
theorem Makes.after (h : l.Makes request s a) :
    l.After s a.state ∧ l.After (l.finish a).2 (l.serve s request) ∧
      a.room = importLimit - a.state.loading.length := by
  induction h with
  | load => exact ⟨.refl _, .refl _, rfl⟩
  | @compileMain text location s call hcall =>
    have hanswers := answers_callsOf (importerOf l.load) (some .main) text (location.elim l.config l.configAt) s
    obtain ⟨hload, hbefore, hafter⟩ := hanswers.of_mem After.refl After.trans (after_load l) hcall
    have hfinish : (l.finish ⟨importLimit - call.before.loading.length, call.location, call.before⟩).2 = call.after :=
      congrArg Prod.snd hload
    rw [hfinish]
    exact ⟨hbefore, hafter, rfl⟩
  | @compileMainAt location s text sources a hread _ ih =>
    obtain ⟨hbefore, hafter, hroom⟩ := ih
    have hserve : l.serve s (.compileMainAt location) = l.serve { s with sources } (.compileMain text (some location)) := by
      simp only [serve, Loader.compileMainAt, hread]
    rw [hserve]
    exact ⟨hbefore.of_sources, hafter, hroom⟩

theorem fits_of_makes (hs : l.Idle s) (h : l.Makes request s a) : l.Fits a := by
  obtain ⟨hbefore, -, hroom⟩ := h.after
  have hchain : a.state.loading = [] := hbefore.loading.trans hs.chain
  rw [hchain] at hroom
  refine ⟨?_, ?_, Faithful.after hs.faithful hbefore⟩
  · rw [hchain]
    exact List.nodup_nil
  · rw [hchain, hroom]
    exact Nat.le_of_eq (Nat.zero_add _)

/-- One request. -/
theorem idle_serve (hs : l.Idle s) (request : Request π) : l.Idle (l.serve s request) := by
  cases request with
  | load location => exact hs.after (after_load l location s)
  | compileMain text location => exact hs.after (after_compileMain l text location s)
  | compileMainAt location => exact hs.after (after_compileMainAt l location s)
  | register => exact ⟨hs.chain, hs.faithful⟩
  | resolve => exact hs
  | clearCache => exact ⟨hs.chain, fun hm => nomatch hm⟩
  | change => exact ⟨hs.chain, hs.faithful⟩

theorem cachedIn_serve (s : LoaderState π) (h : request ≠ .clearCache) : s.CachedIn (l.serve s request) := by
  cases request with
  | load location => exact (after_load l location s).cachedIn
  | compileMain text location => exact (after_compileMain l text location s).cachedIn
  | compileMainAt location => exact (after_compileMainAt l location s).cachedIn
  | register => exact cachedIn_refl s
  | resolve => exact cachedIn_refl s
  | clearCache => exact absurd rfl h
  | change => exact cachedIn_refl s

theorem served_of_idle (hs : l.Idle s) (request : Request π) : l.Served s request where
  chain := (idle_serve hs request).chain.trans hs.chain.symm
  orderly := by
    have hidle := idle_serve hs request
    exact ⟨hidle.chain ▸ List.nodup_nil, hidle.chain ▸ Nat.zero_le _, named_of_faithful hidle.faithful⟩
  kept := cachedIn_serve s
  moments a ha t ht := by
    obtain ⟨hbefore, hafter, -⟩ := ha.after
    obtain ⟨hbegin, hend⟩ := ht.cachedIn
    exact ⟨orderly_of_passes (fits_of_makes hs ha) ht, cachedIn_trans hbefore.cachedIn hbegin,
      cachedIn_trans hend hafter.cachedIn⟩
  loads a _ b _ := ⟨(after_finish l b).loading, fun _ ht => ht.cachedIn, fun _ he => cache_of_failed (Prod.ext he rfl)⟩

/-! ### Many requests -/

/-- The run. -/
theorem idle_run (hs : l.Idle s) (requests : List (Request π)) : l.Idle (l.run requests s) := by
  induction requests generalizing s with
  | nil => exact hs
  | cons request rest ih => exact ih (idle_serve hs request)

theorem cachedIn_run {requests : List (Request π)} (h : .clearCache ∉ requests) (s : LoaderState π) :
    s.CachedIn (l.run requests s) := by
  induction requests generalizing s with
  | nil => exact cachedIn_refl s
  | cons request rest ih =>
    obtain ⟨hfirst, hrest⟩ := List.ne_and_not_mem_of_not_mem_cons h
    exact cachedIn_trans (cachedIn_serve s hfirst.symm) (ih hrest _)

theorem idle_ofSources (l : Loader π) (sources : π) : l.Idle (.ofSources sources) := ⟨rfl, fun hm => nomatch hm⟩

/-- What is kept is what a load gives. -/
theorem load_of_cached (hs : l.Idle s) {location : String} {m : ParsedModule} (hm : s.cache.get? location = some m) :
    l.load location s = (.ok m, s) := by
  refine loadWithin_of_cached ?_ ?_ hm
  · rw [hs.chain]
    exact Nat.succ_ne_zero _
  · rw [hs.chain]
    exact List.not_mem_nil

/-- Whatever a loader is asked for, and however the texts change in between: every request leaves the chain
as it was, and at every moment the chain is in order and the modules that are kept are libraries by the name of
their location. What is kept stays until it is forgotten on request, so that loads of one location give one
module; and loads that fail leave nothing behind for their location. -/
theorem loader_stays_in_order (l : Loader π) (sources : π) (requests : List (Request π)) :
    (∀ request, l.Served (l.run requests (.ofSources sources)) request) ∧
      ∀ location m, (l.load location (l.run requests (.ofSources sources))).1 = .ok m →
        ∀ later, .clearCache ∉ later →
          (l.load location (l.run (requests ++ .load location :: later) (.ofSources sources))).1 = .ok m := by
  have hidle := idle_run (idle_ofSources l sources) requests
  refine ⟨served_of_idle hidle, fun location m hm later hlater => ?_⟩
  have hload : l.load location (l.run requests (.ofSources sources)) = (.ok m, _) := Prod.ext hm rfl
  -- Behind the first load the module is kept, and so it is when the second one comes.
  have hkept := cachedIn_run (l := l) hlater _ location m (kept_of_loadWithin hload)
  have hlast := idle_run (idle_serve hidle (.load location)) later
  unfold run at hkept hlast ⊢
  rw [List.foldl_append, List.foldl_cons, load_of_cached hlast hkept]

end

/-- A module outlives its text, which is taken away behind the first load. -/
theorem module_outlives_its_text :
    ∃ m, (inMemory.load "u.xq" (.ofSources [("u.xq", "module namespace l='urn:l';")])).1 = .ok m ∧
      (inMemory.load "u.xq" (inMemory.run [.load "u.xq", .change []]
        (.ofSources [("u.xq", "module namespace l='urn:l';")]))).1 = .ok m := by
  obtain ⟨m, hm, -⟩ := exists_ok_of_any
    (r := (inMemory.load "u.xq" (.ofSources [("u.xq", "module namespace l='urn:l';")])).1)
    (fun _ => true) (by decide +kernel)
  have hkept := (loader_stays_in_order inMemory [("u.xq", "module namespace l='urn:l';")] []).2 "u.xq" m hm
    [.change []] (by simp)
  exact ⟨m, hm, hkept⟩

end Loader

end XQuerySyntax
