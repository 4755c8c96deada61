import XQuerySyntax.Proofs.Library.History

/-! Modules that come back to themselves. A module that asks for a location whose module is still being parsed
fails, and so does every module that leads to it, with the same code; and no other error has that code. -/

namespace XQuerySyntax.Loader

open Grammar

variable {π : Type} {l : Loader π} {a b first : Load π} {s : LoaderState π} {code : ErrorCode}

/-- A module at this location is still being parsed when a load is asked for that the first one has led to. -/
def InProgress (l : Loader π) (first a : Load π) (location : String) : Prop :=
  ∃ b, Relation.ReflTransGen l.Asks first b ∧ Relation.TransGen l.Asks b a ∧ b.location = location

/-- While the request is served, an import comes to a location whose module is still being parsed. -/
def ComesBack (l : Loader π) (s : LoaderState π) (request : Request π) (a : Load π) : Prop :=
  ∃ first, l.Makes request s first ∧ Relation.ReflTransGen l.Asks first a ∧ l.InProgress first a a.location

/-- The code of the error that a request to the loader ends with, if it fails at an error in a text. -/
def failureCode? (l : Loader π) (s : LoaderState π) : Request π → Option ErrorCode
  | .load location => stopCode? (l.load location s).1
  | .compileMain text location =>
    match (l.compileMain text location s).1 with
    | .ok _ => none
    | .error e => some e.diagnostic.code
  | .compileMainAt location =>
    match (l.compileMainAt location s).1 with
    | .ok _ => none
    | .error (.source _) => none
    | .error (.parse e) => some e.diagnostic.code
  | _ => none

/-! ### The chain -/

/-- The chain of a load that a module asks for ends with the location of the module. -/
theorem loading_of_asks (h : l.Asks a b) : b.state.loading = a.state.loading ++ [a.location] := by
  cases h with
  | nested h hcall =>
    obtain ⟨-, hbefore, -⟩ := after_of_request hcall
    exact hbefore.loading

theorem location_mem_of_transGen (h : Relation.TransGen l.Asks a b) : a.location ∈ b.state.loading := by
  induction h with
  | single hasks =>
    rw [loading_of_asks hasks]
    exact List.mem_append_right _ (List.mem_singleton_self _)
  | tail _ hasks ih =>
    rw [loading_of_asks hasks]
    exact List.mem_append_left _ ih

/-- The chain has the locations of the modules that are still being parsed, and no others. -/
theorem inProgress_iff (hfirst : first.state.loading = []) (h : Relation.ReflTransGen l.Asks first a)
    (location : String) : l.InProgress first a location ↔ location ∈ a.state.loading := by
  constructor
  · rintro ⟨b, -, hb, rfl⟩
    exact location_mem_of_transGen hb
  · intro hmem
    induction h with
    | refl =>
      rw [hfirst] at hmem
      cases hmem
    | @tail b a hbefore hasks ih =>
      rw [loading_of_asks hasks] at hmem
      rcases List.mem_append.1 hmem with hmem | hmem
      · obtain ⟨c, hc, hcb, hlocation⟩ := ih hmem
        exact ⟨c, hc, hcb.tail hasks, hlocation⟩
      · obtain rfl := List.mem_singleton.1 hmem
        exact ⟨b, hbefore, .single hasks, rfl⟩

/-- Nothing is kept for a location on the chain: the location was free when its module was entered, and while
the module is parsed nothing is put there. -/
theorem cache_of_loading (hfirst : first.state.loading = []) (h : Relation.ReflTransGen l.Asks first a) :
    ∀ location ∈ a.state.loading, a.state.cache.get? location = none := by
  induction h with
  | refl =>
    rw [hfirst]
    exact List.forall_mem_nil _
  | tail _ hasks ih =>
    have hloading := loading_of_asks hasks
    cases hasks with
    | nested henters hcall =>
      obtain ⟨-, hbefore, -⟩ := after_of_request hcall
      rw [hloading]
      intro location hmem
      rw [hbefore.chain hmem]
      rcases List.mem_append.1 hmem with hmem | hmem
      · exact ih location hmem
      · obtain rfl := List.mem_singleton.1 hmem
        exact henters.cache

/-- The answer for a location on the chain is that of a cycle, and it leaves the loader as it is. -/
theorem finish_of_mem (h : a.location ∈ a.state.loading) :
    l.finish a = (.error (.cycle (a.state.loading ++ [a.location])), a.state) := by
  obtain ⟨room, location, s⟩ := a
  have houtcome := outcome_loadWithin l room location s
  unfold finish
  generalize l.loadWithin room location s = r at houtcome
  cases houtcome with
  | cycle => rfl
  | tooDeep hchain => exact absurd h hchain
  | cached hchain => exact absurd h hchain
  | unreadable hchain => exact absurd h hchain
  | broken hchain => exact absurd h hchain
  | parsed hchain => exact absurd h hchain

/-! ### The way up -/

/-- An answer that stops a module stops the one that has asked for it too, and nothing more is kept. -/
theorem stops_of_asks (h : l.Asks a b) (hcode : stopCode? (l.finish b).1 = some code) :
    stopCode? (l.finish a).1 = some code ∧ (l.finish a).2.cache = (l.finish b).2.cache := by
  cases h with
  | @nested room text sources call henters hcall =>
    obtain ⟨hload, -, -⟩ := after_of_request hcall
    have hcall' : stopCode? call.outcome = some code := by rwa [finish, hload] at hcode
    obtain ⟨e, hparse, he⟩ := stops_of_call hcall hcall'
    have hfinish : l.finish a = (.error (.broken a.location e), call.after.leaving) := by
      rw [henters.finish, parseAt, hparse]
    refine ⟨?_, ?_⟩
    · rw [hfinish, ← he]
      rfl
    · rw [hfinish, finish, hload]
      rfl

/-- So it goes on up to the outermost load. -/
theorem stops_of_within (h : Relation.ReflTransGen l.Asks first a) (hcode : stopCode? (l.finish a).1 = some code) :
    stopCode? (l.finish first).1 = some code ∧ (l.finish first).2.cache = (l.finish a).2.cache := by
  induction h using Relation.ReflTransGen.head_induction_on with
  | refl => exact ⟨hcode, rfl⟩
  | head hasks _ ih =>
    obtain ⟨hstops, hcache⟩ := stops_of_asks hasks ih.1
    exact ⟨hstops, hcache.trans ih.2⟩

/-- And to the request. -/
theorem failure_of_makes {request : Request π} (h : l.Makes request s a)
    (hcode : stopCode? (l.finish a).1 = some code) :
    l.failureCode? s request = some code ∧ (l.serve s request).cache = (l.finish a).2.cache := by
  induction h with
  | load => exact ⟨hcode, rfl⟩
  | @compileMain text location s call hcall =>
    have hanswers := answers_callsOf (importerOf l.load) (some .main) text (location.elim l.config l.configAt) s
    obtain ⟨hload, -, -⟩ := hanswers.of_mem After.refl After.trans (after_load l) hcall
    have hfinish : l.finish ⟨importLimit - call.before.loading.length, call.location, call.before⟩ =
        (call.outcome, call.after) := hload
    rw [hfinish] at hcode ⊢
    obtain ⟨e, hparse, he⟩ := stops_of_call hcall hcode
    have hcompile : l.compileMain text location s = (.error e, call.after) := hparse
    refine ⟨?_, ?_⟩
    · simp only [failureCode?, hcompile, he]
    · simp only [serve, hcompile]
  | @compileMainAt location s text sources a hread _ ih =>
    obtain ⟨hstops, hcache⟩ := ih hcode
    simp only [failureCode?, serve] at hstops hcache
    rcases hcompile : l.compileMain text (some location) { s with sources } with ⟨e | m, s'⟩ <;>
      rw [hcompile] at hstops hcache
    · have hcompileAt : l.compileMainAt location s = (.error (.parse e), s') := by
        simp only [Loader.compileMainAt, hread, hcompile, Except.mapError]
      simp only [failureCode?, serve, hcompileAt]
      exact ⟨hstops, hcache⟩
    · cases hstops

/-! ### The way down -/

/-- A load that fails with the code of a cycle leads to one for a location on the chain. -/
theorem cycle_of_finish (hcode : stopCode? (l.finish a).1 = some .cyclicImport) :
    ∃ b, Relation.ReflTransGen l.Asks a b ∧ b.location ∈ b.state.loading := by
  obtain ⟨n, location, s⟩ := a
  -- The induction is on the room on the chain, of which a module leaves one place less.
  induction n generalizing location s with
  | zero =>
    have houtcome := outcome_loadWithin l 0 location s
    unfold finish at hcode
    generalize l.loadWithin 0 location s = r at houtcome hcode
    cases houtcome with
    | cycle hchain => exact ⟨_, .refl, hchain⟩
    | tooDeep => cases hcode
  | succ room ih =>
    have houtcome := outcome_loadWithin l (room + 1) location s
    unfold finish at hcode
    generalize l.loadWithin (room + 1) location s = r at houtcome hcode
    cases houtcome with
    | cycle hchain => exact ⟨_, .refl, hchain⟩
    | cached => cases hcode
    | unreadable => cases hcode
    | parsed => cases hcode
    | @broken _ _ _ text sources e s' hchain hcache hread hparse =>
      obtain ⟨call, hcall, hanswer⟩ := call_of_cyclic (congrArg Prod.fst hparse) (Option.some.inj hcode)
      have hasks : l.Asks ⟨room + 1, location, s⟩ ⟨room, call.location, call.before⟩ :=
        .nested ⟨rfl, hchain, hcache, hread⟩ hcall
      have hload : l.loadWithin room call.location call.before = (call.outcome, call.after) :=
        (after_of_request hcall).1
      have hnested : stopCode? (l.finish ⟨room, call.location, call.before⟩).1 = some .cyclicImport := by
        rwa [finish, hload]
      obtain ⟨b, hb, hback⟩ := ih call.location call.before hnested
      exact ⟨b, .head hasks hb, hback⟩

theorem makes_of_failure {request : Request π} (hcode : l.failureCode? s request = some .cyclicImport) :
    ∃ a, l.Makes request s a ∧ stopCode? (l.finish a).1 = some .cyclicImport := by
  have hmain {text : String} {location : Option String} {s : LoaderState π} {e : ParseError}
      (hcompile : (l.compileMain text location s).1 = .error e) (he : e.diagnostic.code = .cyclicImport) :
      ∃ a, l.Makes (.compileMain text location) s a ∧ stopCode? (l.finish a).1 = some .cyclicImport := by
    obtain ⟨call, hcall, hanswer⟩ := call_of_cyclic hcompile he
    have hanswers := answers_callsOf (importerOf l.load) (some .main) text (location.elim l.config l.configAt) s
    obtain ⟨hload, -, -⟩ := hanswers.of_mem After.refl After.trans (after_load l) hcall
    have hfinish : l.finish ⟨importLimit - call.before.loading.length, call.location, call.before⟩ =
        (call.outcome, call.after) := hload
    exact ⟨_, .compileMain hcall, by rwa [hfinish]⟩
  cases request with
  | load location => exact ⟨_, .load, hcode⟩
  | compileMain text location =>
    rcases hcompile : (l.compileMain text location s).1 with e | m <;>
      simp only [failureCode?, hcompile] at hcode
    · exact hmain hcompile (Option.some.inj hcode)
    · cases hcode
  | compileMainAt location =>
    rcases hread : l.provider.read location s.sources with ⟨_ | text, sources⟩
    · simp only [failureCode?, Loader.compileMainAt, hread] at hcode
      cases hcode
    · rcases hcompile : l.compileMain text (some location) { s with sources } with ⟨e | m, s'⟩ <;>
        simp only [failureCode?, Loader.compileMainAt, hread, hcompile, Except.mapError] at hcode
      · obtain ⟨a, ha, hstops⟩ := hmain (congrArg Prod.fst hcompile) (Option.some.inj hcode)
        exact ⟨a, .compileMainAt hread ha, hstops⟩
      · cases hcode
  | register => cases hcode
  | resolve => cases hcode
  | clearCache => cases hcode
  | change => cases hcode

/-! ### Cycles -/

/-- Two modules that import each other. -/
def twoInACircle : MemorySources :=
  [("a.xq", "module namespace a='urn:a'; import module namespace b='urn:b' at 'b.xq';"),
    ("b.xq", "module namespace b='urn:b'; import module namespace a='urn:a' at 'a.xq';")]

end XQuerySyntax.Loader
