import Mathlib.Algebra.GroupWithZero.Nat
import Mathlib.Algebra.Order.BigOperators.Group.List
import Mathlib.Algebra.Order.Group.Nat
import XQuerySyntax.Proofs.Library.Clash
import XQuerySyntax.Proofs.Library.Loading

/-! Locations that an import names more than once. The second time the module is at hand and everything it
offers is known, so no signature is added, and each of them is reported as a clash with itself. -/

namespace XQuerySyntax

open Grammar XQuerySyntax.Parser

variable {σ π : Type}

/-! ### Lists with repetitions -/

/-- The locations of a list that have not been seen, each where it comes first. -/
def unseen (seen locations : List String) : List String := (locations.filter (· ∉ seen)).eraseDups

/-- The locations of a list that have been seen before, as often as they are repeated. -/
def repeats (seen : List String) : List String → List String
  | [] => []
  | a :: rest => if a ∈ seen then a :: repeats seen rest else repeats (a :: seen) rest

theorem unseen_nil (locations : List String) : unseen [] locations = locations.eraseDups := by
  simp [unseen]

theorem unseen_cons_of_mem {seen : List String} {a : String} (h : a ∈ seen) (rest : List String) :
    unseen seen (a :: rest) = unseen seen rest := by
  simp [unseen, h]

theorem unseen_cons_of_not_mem {seen : List String} {a : String} (h : a ∉ seen) (rest : List String) :
    unseen seen (a :: rest) = a :: unseen (a :: seen) rest := by
  have hrest : (rest.filter (· ∉ seen)).filter (fun b => !b == a) = rest.filter (· ∉ a :: seen) := by
    rw [List.filter_filter]
    refine List.filter_congr fun b _ => ?_
    simp [beq_eq_decide]
  rw [unseen, List.filter_cons_of_pos (by simpa using h), List.eraseDups_cons, hrest, unseen]

theorem mem_repeats {a : String} {seen locations : List String} :
    a ∈ repeats seen locations ↔ a ∈ locations ∧ (a ∈ seen ∨ 1 < locations.count a) := by
  induction locations generalizing seen with
  | nil => simp [repeats]
  | cons b rest ih =>
    have hcount : a ∈ rest ↔ 0 < rest.count a := List.count_pos_iff.symm
    by_cases hb : b ∈ seen <;> by_cases hab : b = a
    · subst hab
      simp [repeats, hb]
    · simp [repeats, hb, ih, Ne.symm hab, hab]
    · subst hab
      simp only [repeats, hb, if_false, ih, List.mem_cons, true_or, and_true, hcount, List.count_cons_self,
        true_and, false_or]
      omega
    · simp [repeats, hb, ih, Ne.symm hab, hab]

/-! ### Taking a module over once more -/

namespace StaticContext

variable {c other loaded : StaticContext} {uri : String}

/-- Everything that an import of the namespace offers is known. -/
structure Knows (c other : StaticContext) (uri : String) : Prop where
  ofVariables : ∀ v ∈ other.offeredVariables uri, c.knowsVariable v.name.expanded = true
  ofFunctions : ∀ f ∈ other.offeredFunctions uri, c.knowsFunction f.key = true

theorem knowsVariable_joined (name : ExpandedName) : (c.joined other uri).knowsVariable name =
    (c.knowsVariable name || ((c.freeVariables other uri).find? fun v => v.name.expanded == name).isSome) := by
  simp [knowsVariable, findVariable?, joined, withVariables, withFunctions, List.find?_append]

theorem knowsFunction_joined (key : ExpandedName × Nat) : (c.joined other uri).knowsFunction key =
    (c.knowsFunction key ||
      ((c.freeFunctions other uri).find? fun f => f.name.expanded == key.1 && f.arity == key.2).isSome) := by
  simp [knowsFunction, findFunction?, joined, withVariables, withFunctions, List.find?_append]

/-- Behind an import what it offers is known. -/
theorem knows_joined (c other : StaticContext) (uri : String) : (c.joined other uri).Knows other uri where
  ofVariables v hv := by
    rw [knowsVariable_joined, Bool.or_eq_true]
    by_cases hknown : c.knowsVariable v.name.expanded = true
    · exact .inl hknown
    · have hfree : v ∈ c.freeVariables other uri := List.mem_filter.2 ⟨hv, by simpa using hknown⟩
      exact .inr (List.find?_isSome.2 ⟨v, hfree, beq_self_eq_true _⟩)
  ofFunctions f hf := by
    rw [knowsFunction_joined, Bool.or_eq_true]
    by_cases hknown : c.knowsFunction f.key = true
    · exact .inl hknown
    · have hfree : f ∈ c.freeFunctions other uri := List.mem_filter.2 ⟨hf, by simpa using hknown⟩
      exact .inr (List.find?_isSome.2 ⟨f, hfree, by simp⟩)

/-- What is known stays known. -/
theorem Knows.joined (h : c.Knows loaded uri) (other : StaticContext) : (c.joined other uri).Knows loaded uri where
  ofVariables v hv := by rw [knowsVariable_joined, h.ofVariables v hv, Bool.true_or]
  ofFunctions f hf := by rw [knowsFunction_joined, h.ofFunctions f hf, Bool.true_or]

/-- Once all of it is known, an import adds nothing. -/
theorem joined_of_knows (h : c.Knows other uri) : c.joined other uri = c := by
  have hvariables : c.freeVariables other uri = [] :=
    List.filter_eq_nil_iff.2 fun v hv => by simp [h.ofVariables v hv]
  have hfunctions : c.freeFunctions other uri = [] :=
    List.filter_eq_nil_iff.2 fun f hf => by simp [h.ofFunctions f hf]
  simp [StaticContext.joined, hvariables, hfunctions, withVariables, withFunctions]

end StaticContext

/-- The reports of a module that is taken over: names that clash, or a namespace that is not the one of the
import. -/
def reports (c : StaticContext) (m : ParsedModule) (location uri : String) (offset : Nat) : List Diagnostic :=
  if m.targetNamespace? = some uri then clashes c m.context uri offset
  else [.error .moduleNotFound offset
    ("module at '" ++ location ++ "' does not have the target namespace '" ++ uri ++ "'")]

/-- The number of reports of a module that is taken over once more. -/
def reportsAgain (m : ParsedModule) (uri : String) : Nat :=
  if m.targetNamespace? = some uri then
    (m.context.offeredVariables uri).length + (m.context.offeredFunctions uri).length
  else 1

/-- The context behind a module that is taken over. -/
def contextBehind (c : StaticContext) (m : ParsedModule) (uri : String) : StaticContext :=
  if m.targetNamespace? = some uri then c.joined m.context uri else c

/-- Behind a module that is taken over, if there is one. -/
def received (found : Option ParsedModule) (location uri : String) (offset : Nat) (s : ParserState) : ParserState :=
  match found with
  | none => s
  | some m => { s with
    context := contextBehind s.context m uri
    recorded := s.recorded ++ reports s.context m location uri offset }

theorem takeOver_received {m : ParsedModule} (hd : m.context.Distinct) (location uri : String) (offset : Nat)
    (s : ParserState) : takeOver m location uri offset s = .ok () (received (some m) location uri offset s) := by
  by_cases hns : m.targetNamespace? = some uri
  · rw [takeOver_eq hd hns, received, contextBehind, reports, if_pos hns, if_pos hns]
  · rw [takeOver, if_pos hns, received, contextBehind, reports, if_neg hns, if_neg hns]
    rfl

/-- What the module offers to an import of the namespace is known, if it is a module of the namespace. -/
def Familiar (c : StaticContext) (uri : String) (found : Option ParsedModule) : Prop :=
  ∀ m ∈ found, m.targetNamespace? = some uri → c.Knows m.context uri

theorem familiar_behind (c : StaticContext) (m : ParsedModule) (uri : String) :
    Familiar (contextBehind c m uri) uri (some m) := by
  rintro _ ⟨⟩ hns
  rw [contextBehind, if_pos hns]
  exact StaticContext.knows_joined c m.context uri

theorem Familiar.behind {c : StaticContext} {uri : String} {found : Option ParsedModule} (h : Familiar c uri found)
    (m : ParsedModule) : Familiar (contextBehind c m uri) uri found := by
  intro m' hm' hns
  rw [contextBehind]
  split
  · exact (h m' hm' hns).joined m.context
  · exact h m' hm' hns

/-- A module that has been taken over before changes nothing but the reports. -/
theorem received_of_familiar {s : ParserState} {m : ParsedModule} {uri : String}
    (h : Familiar s.context uri (some m)) (location : String) (offset : Nat) :
    (received (some m) location uri offset s).context = s.context ∧
      (reports s.context m location uri offset).length = reportsAgain m uri := by
  unfold received contextBehind reports reportsAgain
  by_cases hns : m.targetNamespace? = some uri
  · have hknows := h m rfl hns
    have hvariables : s.context.takenVariables m.context uri = m.context.offeredVariables uri :=
      List.filter_eq_self.2 hknows.ofVariables
    have hfunctions : s.context.takenFunctions m.context uri = m.context.offeredFunctions uri :=
      List.filter_eq_self.2 hknows.ofFunctions
    simp only [if_pos hns, StaticContext.joined_of_knows hknows, clashes, hvariables, hfunctions,
      List.length_append, List.length_map, and_self]
  · simp only [if_neg hns, List.length_singleton, and_self]

/-- Two runs through a list of locations, one of which leaves out the repetitions: the contexts are the same
at every step, and the run with the repetitions records more, once for each signature that is offered again. -/
theorem foldl_received (kept : String → Option ParsedModule) (uri : String) (offset : Nat)
    (locations seen : List String) (s t : ParserState) (hcontext : s.context = t.context)
    (hrecorded : t.recorded.Sublist s.recorded) (hseen : ∀ a ∈ seen, Familiar s.context uri (kept a))
    (hkept : ∀ a ∈ locations, ∃ m, kept a = some m) :
    let all := locations.foldl (fun s a => received (kept a) a uri offset s) s
    let once := (unseen seen locations).foldl (fun s a => received (kept a) a uri offset s) t
    all.context = once.context ∧ once.recorded.Sublist all.recorded ∧
      all.recorded.length + t.recorded.length = once.recorded.length + s.recorded.length +
        ((repeats seen locations).map fun a => (kept a).elim 0 (reportsAgain · uri)).sum := by
  induction locations generalizing seen s t with
  | nil => exact ⟨hcontext, hrecorded, by simp [unseen, repeats]; omega⟩
  | cons a rest ih =>
    obtain ⟨m, hm⟩ := hkept a List.mem_cons_self
    have hrest : ∀ b ∈ rest, ∃ m, kept b = some m := fun b hb => hkept b (List.mem_cons_of_mem _ hb)
    by_cases ha : a ∈ seen
    · -- A repetition: only the run with it goes on, and its context stays as it is.
      obtain ⟨hsame, hlength⟩ := received_of_familiar (hm ▸ hseen a ha) a offset
      rw [unseen_cons_of_mem ha, List.foldl_cons, repeats, if_pos ha, List.map_cons, List.sum_cons, hm]
      obtain ⟨hall, hsub, hlengths⟩ := ih seen (received (some m) a uri offset s) t (hsame.trans hcontext)
        (hrecorded.trans (List.sublist_append_left _ _)) (fun b hb => hsame ▸ hseen b hb) hrest
      refine ⟨hall, hsub, hlengths.trans ?_⟩
      simp only [received, List.length_append, hlength, Option.elim_some]
      omega
    · -- A new location: both runs take the same module over in the same context.
      rw [unseen_cons_of_not_mem ha, List.foldl_cons, List.foldl_cons, repeats, if_neg ha, hm]
      have hnext : ∀ b ∈ a :: seen, Familiar (received (some m) a uri offset s).context uri (kept b) := by
        refine List.forall_mem_cons.2 ⟨?_, fun b hb => (hseen b hb).behind m⟩
        rw [hm]
        exact familiar_behind s.context m uri
      obtain ⟨hall, hsub, hlengths⟩ := ih (a :: seen) (received (some m) a uri offset s)
        (received (some m) a uri offset t) (by simp only [received, hcontext])
        (by simpa only [received, hcontext] using hrecorded.append_right _) hnext hrest
      refine ⟨hall, hsub, ?_⟩
      simp only [received, hcontext, List.length_append] at hlengths ⊢
      omega

/-! ### Loading a module once more -/

/-- All of the locations can be loaded, one after the other. -/
inductive LoadsAll (importer : Importer σ) : List String → σ → σ → Prop
  | nil {i : σ} : LoadsAll importer [] i i
  | cons {a : String} {rest : List String} {i j i' : σ} {m : ParsedModule} (hload : importer.load a i = (.ok m, j))
    (hrest : LoadsAll importer rest j i') : LoadsAll importer (a :: rest) i i'

namespace Loader

variable {l : Loader π} {room : List String → Nat} {a : String} {i j i' : LoaderState π}

/-- The importer for modules at some place on the chain, where there is room for so many more. -/
def importerWithin (l : Loader π) (room : List String → Nat) : Importer (LoaderState π) :=
  importerOf fun location i => l.loadWithin (room i.loading) location i

/-- The module at a location is at hand. -/
structure AtHand (room : List String → Nat) (i : LoaderState π) (location : String) : Prop where
  chain : location ∉ i.loading
  room : room i.loading ≠ 0
  kept : (i.cache.get? location).isSome

theorem AtHand.after (h : AtHand room i a) (ha : l.After i j) : AtHand room j a where
  chain := ha.loading ▸ h.chain
  room := ha.loading ▸ h.room
  kept := by
    obtain ⟨m, hm⟩ := Option.isSome_iff_exists.1 h.kept
    exact Option.isSome_iff_exists.2 ⟨m, ha.kept hm⟩

/-- What is at hand is loaded without a change. -/
theorem AtHand.load (h : AtHand room i a) : ∃ m, (l.importerWithin room).load a i = (.ok m, i) := by
  obtain ⟨m, hm⟩ := Option.isSome_iff_exists.1 h.kept
  exact ⟨m, loadWithin_of_cached h.room h.chain hm⟩

theorem after_of_load {m : ParsedModule} (h : (l.importerWithin room).load a i = (.ok m, j)) : l.After i j := by
  have hafter : l.After i ((l.importerWithin room).load a i).2 := after_loadWithin l (room i.loading) a i
  rwa [h] at hafter

/-- What has been loaded is at hand. -/
theorem atHand_of_load {m : ParsedModule} (h : (l.importerWithin room).load a i = (.ok m, j)) : AtHand room j a := by
  have hplace {n : Nat} (houtcome : Outcome l n a i (.ok m, j)) : a ∉ i.loading ∧ n ≠ 0 := by
    cases houtcome with
    | cached hchain => exact ⟨hchain, Nat.succ_ne_zero _⟩
    | parsed hchain => exact ⟨hchain, Nat.succ_ne_zero _⟩
  have houtcome := outcome_loadWithin l (room i.loading) a i
  rw [show l.loadWithin (room i.loading) a i = _ from h] at houtcome
  obtain ⟨hchain, hroom⟩ := hplace houtcome
  have hloading := (after_of_load h).loading
  exact ⟨hloading ▸ hchain, hloading ▸ hroom, Option.isSome_iff_exists.2 ⟨m, kept_of_loadWithin h⟩⟩

theorem after_of_loadsAll {locations : List String} (h : LoadsAll (l.importerWithin room) locations i i') :
    l.After i i' := by
  induction h with
  | nil => exact .refl _
  | cons hload hrest ih => exact (after_of_load hload).trans ih

theorem kept_of_loadsAll {locations : List String} (h : LoadsAll (l.importerWithin room) locations i i') :
    ∀ a ∈ locations, ∃ m, i'.cache.get? a = some m := by
  induction h with
  | nil => exact fun a ha => nomatch ha
  | cons hload hrest ih =>
    rename_i m
    exact List.forall_mem_cons.2 ⟨⟨m, (after_of_loadsAll hrest).kept (kept_of_loadWithin hload)⟩, ih⟩

/-- If all locations of a list can be loaded without the repetitions, they can be loaded with them, and
nothing is different in the end. -/
theorem loadsAll_of_unseen {seen locations : List String}
    (h : LoadsAll (l.importerWithin room) (unseen seen locations) i i') (hseen : ∀ a ∈ seen, AtHand room i a) :
    LoadsAll (l.importerWithin room) locations i i' := by
  induction locations generalizing seen i with
  | nil => exact h
  | cons a rest ih =>
    by_cases ha : a ∈ seen
    · rw [unseen_cons_of_mem ha] at h
      obtain ⟨m, hload⟩ := (hseen a ha).load (l := l)
      exact .cons hload (ih h hseen)
    · rw [unseen_cons_of_not_mem ha] at h
      cases h with
      | cons hload hrest =>
        refine .cons hload (ih hrest (List.forall_mem_cons.2 ⟨atHand_of_load hload, fun b hb => ?_⟩))
        exact (hseen b hb).after (after_of_load hload)

/-- An import from locations that can be loaded takes one module after the other over. -/
theorem forIn_loadFrom {locations : List String} (h : LoadsAll (l.importerWithin room) locations i i')
    (hi : l.Faithful i) (uri : String) (offset : Nat) (s : ParserState) :
    (do for location in locations do loadFrom (l.importerWithin room) uri offset location :
        ModuleParser (LoaderState π) Unit) (s, i) =
      .ok () (locations.foldl (fun s a => received (i'.cache.get? a) a uri offset s) s, i') := by
  induction h generalizing s with
  | nil => rfl
  | cons hload hrest ih =>
    rename_i a rest i j i' m
    have hfirst : l.After i j := after_of_load hload
    have hkept : j.cache.get? a = some m := kept_of_loadWithin hload
    have hdistinct : m.context.Distinct := by
      obtain ⟨importer, text, s, hparse⟩ := hi.after hfirst hkept
      exact StaticContext.distinct_of_parseModuleWith hparse
    have hfrom : loadFrom (l.importerWithin room) uri offset a (s, i) =
        .ok () (received (i'.cache.get? a) a uri offset s, j) := by
      unfold loadFrom
      simp only [hload, lift, takeOver_received hdistinct, (after_of_loadsAll hrest).kept hkept]
    rw [List.forIn_cons, bind_assoc, bind_assoc]
    exact (bind_of_ok hfrom).trans (ih (hi.after hfirst) _)

end Loader

/-! ### An import declaration -/

/-- The same importer without repetitions among the locations of an import. -/
def Importer.once (importer : Importer σ) : Importer σ :=
  { importer with locate := fun uri hints id i => (importer.locate uri hints id i).eraseDups }

/-- Where an import begins to load: a namespace without locations has been reported. -/
def beforeLoading (locations : List String) (uri : String) (offset : Nat) (s : ParserState) : ParserState :=
  if locations.isEmpty then
    { s with recorded := s.recorded ++
      [.error .moduleNotFound offset ("no module found for namespace '" ++ uri ++ "'")] }
  else s

theorem loadImport_eq (importer : Importer σ) (library : ModuleImport) (offset : Nat) (s : ParserState) (i : σ) :
    let locations := importer.locate library.targetNamespace library.locations s.module i
    loadImport (some importer) library offset (s, i) =
      (do for location in locations do loadFrom importer library.targetNamespace offset location :
        ModuleParser σ Unit) (beforeLoading locations library.targetNamespace offset s, i) := by
  intro locations
  have hget : (get : ModuleParser σ (ParserState × σ)) (s, i) = .ok (s, i) (s, i) := rfl
  refine (bind_of_ok hget).trans ?_
  unfold beforeLoading
  dsimp only
  split
  · exact bind_of_ok rfl
  · rfl

theorem isEmpty_eraseDups (locations : List String) : locations.eraseDups.isEmpty = locations.isEmpty := by
  cases locations with
  | nil => rfl
  | cons a rest => rw [List.eraseDups_cons, List.isEmpty_cons, List.isEmpty_cons]

/-- A module is reported no more when it is taken over once more if it offers nothing to the import. -/
theorem reportsAgain_eq_zero {m : ParsedModule} {uri : String} : reportsAgain m uri = 0 ↔
    m.targetNamespace? = some uri ∧ m.context.offeredVariables uri = [] ∧ m.context.offeredFunctions uri = [] := by
  unfold reportsAgain
  split
  · rename_i hns
    rw [Nat.add_eq_zero_iff, List.length_eq_zero_iff, List.length_eq_zero_iff]
    exact (and_iff_right hns).symm
  · rename_i hns
    exact ⟨fun h => absurd h Nat.one_ne_zero, fun h => absurd h.1 hns⟩

/-- An import declaration, all of whose locations can be loaded. With repetitions among the locations the
signatures are the ones without them, and the loader comes to the same state; what is recorded grows by one
report for each signature that a repeated module offers, or by one for a module of another namespace. So the
repetitions are harmless just if the modules that are repeated offer nothing to the import. -/
theorem repetitions_only_report {l : Loader π} {room : List String → Nat} {i i' : LoaderState π}
    (hi : l.Faithful i) (library : ModuleImport) (offset : Nat) (s : ParserState)
    (hloads : LoadsAll (l.importerWithin room)
      (LoaderState.locate library.targetNamespace library.locations s.module i).eraseDups i i') :
    ∃ all once, loadImport (some (l.importerWithin room)) library offset (s, i) = .ok () (all, i') ∧
      loadImport (some (l.importerWithin room).once) library offset (s, i) = .ok () (once, i') ∧
      all.context = once.context ∧ once.recorded.Sublist all.recorded ∧
      all.recorded.length = once.recorded.length + ((repeats []
        (LoaderState.locate library.targetNamespace library.locations s.module i)).map fun a =>
          (i'.cache.get? a).elim 0 (reportsAgain · library.targetNamespace)).sum ∧
      (all.recorded = once.recorded ↔
        ∀ a, 1 < (LoaderState.locate library.targetNamespace library.locations s.module i).count a →
          ∀ m, i'.cache.get? a = some m → m.targetNamespace? = some library.targetNamespace ∧
            m.context.offeredVariables library.targetNamespace = [] ∧
            m.context.offeredFunctions library.targetNamespace = []) := by
  let locations := LoaderState.locate library.targetNamespace library.locations s.module i
  let uri := library.targetNamespace
  let start := beforeLoading locations uri offset s
  have hloadsAll : LoadsAll (l.importerWithin room) locations i i' :=
    Loader.loadsAll_of_unseen (by rwa [unseen_nil]) (List.forall_mem_nil _)
  have hkept : ∀ a ∈ locations, ∃ m, i'.cache.get? a = some m := Loader.kept_of_loadsAll hloadsAll
  obtain ⟨hcontext, hsub, hlength⟩ := foldl_received (i'.cache.get? ·) uri offset locations [] start start rfl
    (List.Sublist.refl _) (List.forall_mem_nil _) hkept
  rw [unseen_nil] at hcontext hsub hlength
  have hlengths := Nat.add_right_cancel (hlength.trans (Nat.add_right_comm _ _ _))
  refine ⟨_, _, (loadImport_eq _ library offset s i).trans (Loader.forIn_loadFrom hloadsAll hi uri offset start),
    (loadImport_eq _ library offset s i).trans ?_, hcontext, hsub, hlengths, ?_⟩
  · have hstart : beforeLoading locations.eraseDups uri offset s = start := by
      simp only [start, beforeLoading, isEmpty_eraseDups]
    have honce := Loader.forIn_loadFrom hloads hi uri offset start
    rw [← hstart] at honce ⊢
    exact honce
  · -- The shorter list is the longer one if there is not one report more.
    have hsum : ((repeats [] locations).map fun a => (i'.cache.get? a).elim 0 (reportsAgain · uri)).sum = 0 ↔
        ∀ a, 1 < locations.count a → ∀ m, i'.cache.get? a = some m → reportsAgain m uri = 0 := by
      rw [List.sum_eq_zero_iff, List.forall_mem_map]
      constructor
      · intro h a ha m hm
        have hmem : a ∈ repeats [] locations := mem_repeats.2 ⟨List.count_pos_iff.1 (Nat.zero_lt_of_lt ha), .inr ha⟩
        simpa only [hm, Option.elim_some] using h a hmem
      · intro h a ha
        obtain ⟨hmem, hcount⟩ := mem_repeats.1 ha
        obtain ⟨m, hm⟩ := hkept a hmem
        rw [hm]
        exact h a (hcount.resolve_left List.not_mem_nil) m hm
    simp only [reportsAgain_eq_zero] at hsum
    rw [← hsum]
    constructor
    · intro heq
      rw [heq] at hlengths
      exact Nat.left_eq_add.1 hlengths
    · intro hzero
      rw [hzero, Nat.add_zero] at hlengths
      exact (hsub.eq_of_length hlengths.symm).symm

/-- A module with one function. -/
def oneFunction : MemorySources := [("u.xq", "module namespace l='urn:l'; declare function l:x() {1};")]

/-- What a second import of the module reports, and what is reported of a main module with one hint and with two. -/
theorem parse_oneFunction :
    (Loader.inMemory.loadWithin importLimit "u.xq" (.ofSources oneFunction)).1.toOption.any
        (fun m => reportsAgain m "urn:l" == 1) ∧
      (Loader.inMemory.compileMain "import module namespace l='urn:l' at 'u.xq'; 1" none
        (.ofSources oneFunction)).1.toOption.any (fun m => decide (m.diagnostics.map Diagnostic.code = [])) ∧
      (Loader.inMemory.compileMain "import module namespace l='urn:l' at 'u.xq', './u.xq'; 1" none
        (.ofSources oneFunction)).1.toOption.any
          (fun m => decide (m.diagnostics.map Diagnostic.code = [.duplicateFunction])) := by
  decide +kernel

/-- Two hints for one location: the function of the module there clashes with itself. -/
theorem function_clashes_with_itself :
    ∃ i' all once, loadImport (some (Loader.inMemory.importerWithin fun _ => importLimit))
        ⟨some "l", "urn:l", ["u.xq", "./u.xq"]⟩ 0 (.ofText "" .standard, .ofSources oneFunction) = .ok () (all, i') ∧
      loadImport (some (Loader.inMemory.importerWithin fun _ => importLimit).once)
        ⟨some "l", "urn:l", ["u.xq", "./u.xq"]⟩ 0 (.ofText "" .standard, .ofSources oneFunction) = .ok () (once, i') ∧
      all.context = once.context ∧ all.recorded.length = once.recorded.length + 1 := by
  let start : LoaderState MemorySources := .ofSources oneFunction
  obtain ⟨m, hm, htest⟩ := exists_ok_of_any _ parse_oneFunction.1
  let behind := (Loader.inMemory.loadWithin importLimit "u.xq" start).2
  have hload : Loader.inMemory.loadWithin importLimit "u.xq" start = (.ok m, behind) := Prod.fst_eq_iff.1 hm
  have hlocations : LoaderState.locate "urn:l" ["u.xq", "./u.xq"] .main start = ["u.xq", "u.xq"] := by
    decide +kernel
  have hloads : LoadsAll (Loader.inMemory.importerWithin fun _ => importLimit)
      (LoaderState.locate "urn:l" ["u.xq", "./u.xq"] .main start).eraseDups start behind := by
    rw [hlocations]
    exact .cons hload .nil
  obtain ⟨all, once, hall, honce, hcontext, -, hlength, -⟩ := repetitions_only_report
    (l := Loader.inMemory) (i := start) (fun h => nomatch h)
    ⟨some "l", "urn:l", ["u.xq", "./u.xq"]⟩ 0 (.ofText "" .standard) hloads
  refine ⟨behind, all, once, hall, honce, hcontext, hlength.trans ?_⟩
  change _ + ((repeats [] (LoaderState.locate "urn:l" ["u.xq", "./u.xq"] .main start)).map _).sum = _
  rw [hlocations]
  change _ + ([_].map _).sum = _
  rw [List.map_singleton, List.sum_singleton, Loader.kept_of_loadWithin hload]
  exact congrArg (once.recorded.length + ·) (beq_iff_eq.1 htest)

/-- With one of the hints the module is imported without a report, with both of them there is one. -/
theorem import_with_two_hints_is_reported :
    (∃ m, ((Loader.inMemory.compileMain
        "import module namespace l='urn:l' at 'u.xq'; 1" none (.ofSources oneFunction)).1 = .ok m) ∧
      m.diagnostics.map Diagnostic.code = []) ∧
    ∃ m, ((Loader.inMemory.compileMain
        "import module namespace l='urn:l' at 'u.xq', './u.xq'; 1" none (.ofSources oneFunction)).1 = .ok m) ∧
      m.diagnostics.map Diagnostic.code = [.duplicateFunction] := by
  obtain ⟨-, hone, htwo⟩ := parse_oneFunction
  constructor
  · obtain ⟨m, hm, htest⟩ := exists_ok_of_any _ hone
    exact ⟨m, hm, of_decide_eq_true htest⟩
  · obtain ⟨m, hm, htest⟩ := exists_ok_of_any _ htwo
    exact ⟨m, hm, of_decide_eq_true htest⟩

end XQuerySyntax
