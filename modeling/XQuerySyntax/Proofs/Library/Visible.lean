import XQuerySyntax.Proofs.Library.Importing
import XQuerySyntax.Proofs.Library.Repeated

/-! Which declarations a module sees. Besides its own it sees the public ones of the modules that it imports,
in their namespaces. These are written in the imported modules, unless such a module imports its own
namespace: then it hands on what it has from there. -/

namespace XQuerySyntax

open Grammar

variable {σ π : Type}

/-- A global declaration as it is known from outside. -/
inductive GlobalSignature where
  | ofVariable (v : VariableSignature)
  | ofFunction (f : FunctionSignature)

namespace GlobalSignature

/-- The name of what is declared. -/
def name : GlobalSignature → QName
  | ofVariable v => v.name
  | ofFunction f => f.name

/-- Whether others may import it. -/
def isPublic : GlobalSignature → Bool
  | ofVariable v => v.isPublic
  | ofFunction f => f.isPublic

end GlobalSignature

/-- The signatures of a context. -/
def StaticContext.signatures (c : StaticContext) : List GlobalSignature :=
  c.variableSignatures.map .ofVariable ++ c.functionSignatures.map .ofFunction

/-- The signature of a declaration, if it declares a variable or a function. -/
def DeclarationKind.signature? : DeclarationKind → Option GlobalSignature
  | variableDecl d => some (.ofVariable d.signature)
  | functionDecl d => some (.ofFunction d.signature)
  | _ => none

/-- The signatures of the declarations that are written in a prolog. -/
def written (ds : List DeclarationKind) : List GlobalSignature := ds.filterMap DeclarationKind.signature?

namespace StaticContext

variable {c c' other : StaticContext} {uri : String} {sig : GlobalSignature}

/-! ### Where a signature comes from -/

theorem mem_of_mem_addNew {α : Type} {p : α → Bool} {xs : List α} {x y : α} (h : y ∈ addNew p xs x) :
    y ∈ xs ∨ y = x := by
  unfold addNew at h
  split at h
  · exact .inl h
  · exact (List.mem_append.1 h).imp_right List.mem_singleton.1

theorem mem_signatures_valued {kind : DeclarationKind} (h : sig ∈ (c.valued kind).signatures) :
    sig ∈ c.signatures ∨ kind.signature? = some sig := by
  cases kind with
  | variableDecl d =>
    rcases List.mem_append.1 h with h | h
    · obtain ⟨v, hv, rfl⟩ := List.mem_map.1 h
      refine (mem_of_mem_addNew hv).imp (fun hv => ?_) fun hv => ?_
      · exact List.mem_append_left _ (List.mem_map_of_mem hv)
      · rw [hv, DeclarationKind.signature?]
    · exact .inl (List.mem_append_right _ h)
  | functionDecl d =>
    rcases List.mem_append.1 h with h | h
    · exact .inl (List.mem_append_left _ h)
    · obtain ⟨f, hf, rfl⟩ := List.mem_map.1 h
      refine (mem_of_mem_addNew hf).imp (fun hf => ?_) fun hf => ?_
      · exact List.mem_append_right _ (List.mem_map_of_mem hf)
      · rw [hf, DeclarationKind.signature?]
  | _ => exact .inl h

/-- Behind a declaration there is its signature besides those that there were. -/
theorem mem_signatures_declare {kind : DeclarationKind} (h : sig ∈ (c.declare kind).signatures) :
    sig ∈ c.signatures ∨ kind.signature? = some sig := by
  obtain ⟨bindings, frames, given, hd⟩ := exists_declare c kind
  rw [hd] at h
  rcases mem_signatures_valued h with h | h
  · exact .inl h
  · exact .inr h

theorem Agrees.signatures_eq (h : c.Agrees c') : c'.signatures = c.signatures := by
  obtain ⟨_, _, rfl⟩ := h.exists_bindings
  rfl

theorem mem_declareAll {α : Type} {declare : StaticContext → α → Bool × StaticContext} {name : α → QName}
    {wrap : α → GlobalSignature}
    (hd : ∀ c x sig, sig ∈ (declare c x).2.signatures → sig ∈ c.signatures ∨ sig = wrap x) {xs : List α}
    (h : sig ∈ (declareAll declare name c xs).2.signatures) : sig ∈ c.signatures ∨ ∃ x ∈ xs, sig = wrap x := by
  induction xs generalizing c with
  | nil => exact .inl h
  | cons x xs ih =>
    rcases ih h with h | ⟨y, hy, rfl⟩
    · exact (hd c x sig h).imp_right fun hx => ⟨x, List.mem_cons_self, hx⟩
    · exact .inr ⟨y, List.mem_cons_of_mem _ hy, rfl⟩

theorem mem_signatures_declareVariable (c : StaticContext) (v : VariableSignature) (sig : GlobalSignature)
    (h : sig ∈ (c.declareVariable v).2.signatures) : sig ∈ c.signatures ∨ sig = .ofVariable v := by
  rw [declareVariable_eq] at h
  rcases List.mem_append.1 h with h | h
  · obtain ⟨w, hw, rfl⟩ := List.mem_map.1 h
    refine (mem_of_mem_addNew hw).imp (fun hw => ?_) (congrArg _)
    exact List.mem_append_left _ (List.mem_map_of_mem hw)
  · exact .inl (List.mem_append_right _ h)

theorem mem_signatures_declareFunction (c : StaticContext) (f : FunctionSignature) (sig : GlobalSignature)
    (h : sig ∈ (c.declareFunction f).2.signatures) : sig ∈ c.signatures ∨ sig = .ofFunction f := by
  rw [declareFunction_eq] at h
  rcases List.mem_append.1 h with h | h
  · exact .inl (List.mem_append_left _ h)
  · obtain ⟨g, hg, rfl⟩ := List.mem_map.1 h
    refine (mem_of_mem_addNew hg).imp (fun hg => ?_) (congrArg _)
    exact List.mem_append_right _ (List.mem_map_of_mem hg)

/-- What an import of a namespace brings is public, in the namespace, and known in the imported module. -/
theorem mem_signatures_import (h : sig ∈ (c.importSignatures other uri).2.signatures) :
    sig ∈ c.signatures ∨
      (sig ∈ other.signatures ∧ sig.isPublic = true ∧ sig.name.namespaceUri = some uri) := by
  rcases mem_declareAll mem_signatures_declareFunction h with h | ⟨f, hf, rfl⟩
  · rcases mem_declareAll mem_signatures_declareVariable h with h | ⟨v, hv, rfl⟩
    · exact .inl h
    · obtain ⟨hv, hoffered⟩ := List.mem_filter.1 hv
      obtain ⟨hpublic, huri⟩ := Bool.and_eq_true_iff.1 hoffered
      exact .inr ⟨List.mem_append_left _ (List.mem_map_of_mem hv), hpublic, beq_iff_eq.1 huri⟩
  · obtain ⟨hf, hoffered⟩ := List.mem_filter.1 hf
    obtain ⟨hpublic, huri⟩ := Bool.and_eq_true_iff.1 hoffered
    exact .inr ⟨List.mem_append_right _ (List.mem_map_of_mem hf), hpublic, beq_iff_eq.1 huri⟩

theorem mem_signatures_receive {outcome : Except ImportError ParsedModule}
    (h : sig ∈ (c.receive uri outcome).signatures) : sig ∈ c.signatures ∨ ∃ m, outcome = .ok m ∧
      m.targetNamespace? = some uri ∧ sig ∈ m.context.signatures ∧ sig.isPublic = true ∧
        sig.name.namespaceUri = some uri := by
  unfold receive at h
  split at h
  · rename_i m
    split at h
    · rename_i hns
      exact (mem_signatures_import h).imp_right fun hsig => ⟨m, rfl, hns, hsig⟩
    · exact .inl h
  · exact .inl h

theorem signatures_contextBefore (m : Module) (config : Config) :
    (m.contextBefore (.ofConfig config)).signatures = [] := by
  cases m with
  | main _ _ => rfl
  | library qualifier uri _ =>
    change ((ofConfig config).bind qualifier uri).signatures = []
    rw [bind_eq]
    rfl

end StaticContext

/-! ### What a module sees -/

theorem mem_written_concat {ds : List DeclarationKind} {kind : DeclarationKind} {sig : GlobalSignature}
    (h : sig ∈ written ds ∨ kind.signature? = some sig) : sig ∈ written (ds ++ [kind]) := by
  rw [written, List.filterMap_append, List.mem_append]
  exact h.imp_right fun hkind => List.mem_filterMap.2 ⟨kind, List.mem_singleton_self _, hkind⟩

/-- Whatever the importer, what a module sees it declares or has from a namespace that it imports. -/
theorem mem_signatures_of_parse {importer : Importer σ} {kind : Option ModuleKind} {text : String} {config : Config}
    {imports : σ} {m : ParsedModule} (h : (parseModuleWith (some importer) kind text config imports).1 = .ok m)
    {sig : GlobalSignature} (hsig : sig ∈ m.context.signatures) :
    sig ∈ written m.module.declared ∨ ∃ library, .moduleImport library ∈ m.module.declared ∧
      sig.name.namespaceUri = some library.targetNamespace := by
  let I : Lasting importer m.id :=
    { holds := fun ds c _ => ∀ sig ∈ c.signatures, sig ∈ written ds ∨ ∃ library,
        .moduleImport library ∈ ds ∧ sig.name.namespaceUri = some library.targetNamespace
      agrees := fun hc ha => ha.signatures_eq ▸ hc
      declare := by
        intro ds c i kind hc sig hsig
        rcases StaticContext.mem_signatures_declare hsig with hsig | hkind
        · rcases hc sig hsig with hwritten | ⟨library, hlibrary, huri⟩
          · exact .inl (mem_written_concat (.inl hwritten))
          · exact .inr ⟨library, List.mem_append_left _ hlibrary, huri⟩
        · exact .inl (mem_written_concat (.inr hkind))
      load := by
        intro ds c c₀ i i₀ library location hlibrary _ _ hc sig hsig
        rcases StaticContext.mem_signatures_receive hsig with hsig | ⟨_, _, _, _, _, huri⟩
        · exact hc sig hsig
        · exact .inr ⟨library, hlibrary, huri⟩ }
  refine I.of_parse (Prod.ext h rfl) (fun sig hsig => ?_) sig hsig
  rw [StaticContext.signatures_contextBefore] at hsig
  cases hsig

namespace Loader

variable {l : Loader π} {room : List String → Nat} {s s' : LoaderState π} {m : ParsedModule}

/-- A signature that a module has from another one: it imports that module from a location where it is kept,
and there the signature is a public one of the imported namespace. -/
structure ImportedFrom (importing : ModuleId) (ds : List DeclarationKind) (s : LoaderState π) (sig : GlobalSignature)
    (library : ModuleImport) (location : String) (source : ParsedModule) : Prop where
  declared : .moduleImport library ∈ ds
  located : location ∈ LoaderState.locate library.targetNamespace library.locations importing s
  kept : s.cache.get? location = some source
  ofNamespace : source.targetNamespace? = some library.targetNamespace
  isPublic : sig.isPublic = true
  uri : sig.name.namespaceUri = some library.targetNamespace
  known : sig ∈ source.context.signatures

theorem locate_eq_of_after (h : l.After s s') (uri : String) (hints : List String) (importing : ModuleId) :
    LoaderState.locate uri hints importing s' = LoaderState.locate uri hints importing s := by
  unfold LoaderState.locate
  rw [h.catalog]

theorem ImportedFrom.after {importing : ModuleId} {ds : List DeclarationKind} {sig : GlobalSignature}
    {library : ModuleImport} {location : String} {source : ParsedModule}
    (h : ImportedFrom importing ds s sig library location source) (ha : l.After s s') :
    ImportedFrom importing ds s' sig library location source :=
  { h with
    located := (locate_eq_of_after ha _ _ _).symm ▸ h.located
    kept := ha.kept h.kept }

/-- What a module sees it declares, or it has it from a module that it imports. -/
theorem importedFrom_of_parse {kind : Option ModuleKind} {text : String} {config : Config}
    (h : parseModuleWith (some (l.importerWithin room)) kind text config s = (.ok m, s')) {sig : GlobalSignature}
    (hsig : sig ∈ m.context.signatures) : sig ∈ written m.module.declared ∨
      ∃ library location source, ImportedFrom m.id m.module.declared s' sig library location source := by
  -- Carried through the prolog: the loader has not forgotten where the signatures came from.
  let I : Lasting (l.importerWithin room) m.id :=
    { holds := fun ds c i => l.After s i ∧ ∀ sig ∈ c.signatures, sig ∈ written ds ∨
        ∃ library location source, ImportedFrom m.id ds i sig library location source
      agrees := fun hc ha => ⟨hc.1, ha.signatures_eq ▸ hc.2⟩
      declare := by
        rintro ds c i kind ⟨hafter, hc⟩
        refine ⟨hafter, fun sig hsig => ?_⟩
        rcases StaticContext.mem_signatures_declare hsig with hsig | hkind
        · rcases hc sig hsig with hwritten | ⟨library, location, source, hfrom⟩
          · exact .inl (mem_written_concat (.inl hwritten))
          · exact .inr ⟨library, location, source,
              { hfrom with declared := List.mem_append_left _ hfrom.declared }⟩
        · exact .inl (mem_written_concat (.inr hkind))
      load := by
        rintro ds c c₀ i i₀ library location hlibrary ⟨hafter₀, _⟩ hlocation ⟨hafter, hc⟩
        have hload : l.After i ((l.importerWithin room).load location i).2 :=
          after_loadWithin l (room i.loading) location i
        refine ⟨hafter.trans hload, fun sig hsig => ?_⟩
        rcases StaticContext.mem_signatures_receive hsig with hsig | ⟨source, hok, hns, hknown, hpublic, huri⟩
        · refine (hc sig hsig).imp_right ?_
          rintro ⟨library, location, source, hfrom⟩
          exact ⟨library, location, source, hfrom.after hload⟩
        · have hkept := kept_of_loadWithin (show l.loadWithin (room i.loading) location i = _ from Prod.ext hok rfl)
          refine .inr ⟨library, location, source, hlibrary, ?_, hkept, hns, hpublic, huri, hknown⟩
          rw [locate_eq_of_after (hafter.trans hload), ← locate_eq_of_after hafter₀]
          exact hlocation }
  refine (I.of_parse h ⟨.refl s, fun sig hsig => ?_⟩).2 sig hsig
  rw [StaticContext.signatures_contextBefore] at hsig
  cases hsig

/-- Every signature that a module has and does not declare itself is a public one of a module that it imports
directly. It is written there, unless that module imports its own namespace, from where it may have the
signature: in this case alone an import is transitive. -/
theorem imported_signatures_are_written_in_direct_imports (hs : l.Faithful s) {kind : Option ModuleKind}
    {text : String} {config : Config}
    (h : parseModuleWith (some (l.importerWithin room)) kind text config s = (.ok m, s')) :
    ∀ sig ∈ m.context.signatures, sig ∉ written m.module.declared →
      ∃ library location source, ImportedFrom m.id m.module.declared s' sig library location source ∧
        (sig ∈ written source.module.declared ∨ ∃ own, .moduleImport own ∈ source.module.declared ∧
          source.targetNamespace? = some own.targetNamespace) := by
  intro sig hsig hforeign
  obtain ⟨library, location, source, hfrom⟩ := (importedFrom_of_parse h hsig).resolve_left hforeign
  refine ⟨library, location, source, hfrom, ?_⟩
  have hafter : l.After s s' := by
    have hafter : l.After s (parseModuleWith (some (l.importerWithin room)) kind text config s).2 :=
      after_parse (fun location i => after_loadWithin l (room i.loading) location i) kind text config s
    rwa [h] at hafter
  obtain ⟨importer, text', i, hparse⟩ := hs.after hafter hfrom.kept
  refine (mem_signatures_of_parse hparse hfrom.known).imp_right ?_
  rintro ⟨own, hown, huri⟩
  exact ⟨own, hown, hfrom.ofNamespace.trans (hfrom.uri.symm.trans huri)⟩

/-- A module that imports another one of its own namespace. -/
def twoPartLibrary : MemorySources :=
  [("a.xq", "module namespace l='urn:l'; import module namespace k='urn:l' at 'b.xq'; declare function l:x() {1};"),
    ("b.xq", "module namespace l='urn:l'; declare function l:y() {1};")]

/-- What a main module has that imports the library, and what is written in it and in the module that it
imports. -/
theorem parse_twoPartLibrary :
    (inMemory.compileMain "import module namespace l='urn:l' at 'a.xq'; 1" none (.ofSources twoPartLibrary)).1.toOption.any
        (fun m => decide (m.context.signatures.map (fun sig => sig.name.localPart) = ["y", "x"] ∧
          (written m.module.declared).map (fun sig => sig.name.localPart) = [] ∧
          m.context.functionSignatures.length = 2)) ∧
      (inMemory.load "a.xq" (.ofSources twoPartLibrary)).1.toOption.any
        (fun a => decide ((written a.module.declared).map (fun sig => sig.name.localPart) = ["x"])) := by
  decide +kernel

/-- A main module has both functions of the library from the one module that it imports. -/
theorem functions_come_from_imported_part :
    ∃ m s', inMemory.compileMain "import module namespace l='urn:l' at 'a.xq'; 1" none
        (.ofSources twoPartLibrary) = (.ok m, s') ∧
      m.context.functionSignatures.length = 2 ∧
      ∀ sig ∈ m.context.signatures, sig ∉ written m.module.declared →
        ∃ library location source, ImportedFrom m.id m.module.declared s' sig library location source ∧
          (sig ∈ written source.module.declared ∨ ∃ own, .moduleImport own ∈ source.module.declared ∧
            source.targetNamespace? = some own.targetNamespace) := by
  obtain ⟨m, hm, htest⟩ := exists_ok_of_any _ parse_twoPartLibrary.1
  have hparse := Prod.fst_eq_iff.1 hm
  refine ⟨m, _, hparse, (of_decide_eq_true htest).2.2, ?_⟩
  exact imported_signatures_are_written_in_direct_imports (l := inMemory) (s := .ofSources twoPartLibrary)
    (fun h => nomatch h) (show parseModuleWith (some (inMemory.importerWithin fun chain =>
      importLimit - chain.length)) _ _ _ _ = _ from hparse)

/-- One of the functions is not written in the imported module. -/
theorem function_of_second_part_is_handed_on :
    ∃ m a, (inMemory.compileMain "import module namespace l='urn:l' at 'a.xq'; 1" none
        (.ofSources twoPartLibrary)).1 = .ok m ∧
      (inMemory.load "a.xq" (.ofSources twoPartLibrary)).1 = .ok a ∧
      m.context.signatures.map (fun sig => sig.name.localPart) = ["y", "x"] ∧
      (written m.module.declared).map (fun sig => sig.name.localPart) = [] ∧
      (written a.module.declared).map (fun sig => sig.name.localPart) = ["x"] := by
  obtain ⟨m, hm, hsees⟩ := exists_ok_of_any _ parse_twoPartLibrary.1
  obtain ⟨a, ha, hwritten⟩ := exists_ok_of_any _ parse_twoPartLibrary.2
  obtain ⟨hsees, hown, -⟩ := of_decide_eq_true hsees
  exact ⟨m, a, hm, ha, hsees, hown, of_decide_eq_true hwritten⟩

end Loader

end XQuerySyntax
