import Mathlib.Data.Prod.Basic
import XQuerySyntax.Proofs.Library.Importing
import XQuerySyntax.Proofs.Library.Loading

/-! Taking over an imported module. What is free is added, what is taken is left alone and reported once,
and nothing else happens. A function that is taken is reported as a variable if the imported module
knows a variable of its name. -/

namespace XQuerySyntax

/-- What a function is told apart by. -/
abbrev FunctionSignature.key (f : FunctionSignature) : ExpandedName × Nat := (f.name.expanded, f.arity)

namespace StaticContext

/-- Whether a variable has the name. -/
def knowsVariable (c : StaticContext) (name : ExpandedName) : Bool := (c.findVariable? name).isSome

/-- Whether a function has the name and the number of parameters. -/
def knowsFunction (c : StaticContext) (key : ExpandedName × Nat) : Bool :=
  (c.findFunction? key.1 key.2).isSome

/-- The variables that an import of a namespace is after. -/
def offeredVariables (c : StaticContext) (uri : String) : List VariableSignature :=
  c.variableSignatures.filter fun v => v.isPublic && v.name.namespaceUri == some uri

/-- The functions that an import of a namespace is after. -/
def offeredFunctions (c : StaticContext) (uri : String) : List FunctionSignature :=
  c.functionSignatures.filter fun f => f.isPublic && f.name.namespaceUri == some uri

/-- The offered variables whose names are known already. -/
def takenVariables (c other : StaticContext) (uri : String) : List VariableSignature :=
  (other.offeredVariables uri).filter fun v => c.knowsVariable v.name.expanded

/-- The offered functions whose names are known already with as many parameters. -/
def takenFunctions (c other : StaticContext) (uri : String) : List FunctionSignature :=
  (other.offeredFunctions uri).filter fun f => c.knowsFunction f.key

/-- The offered variables whose names are free. -/
def freeVariables (c other : StaticContext) (uri : String) : List VariableSignature :=
  (other.offeredVariables uri).filter fun v => !c.knowsVariable v.name.expanded

/-- The offered functions whose names are free for as many parameters. -/
def freeFunctions (c other : StaticContext) (uri : String) : List FunctionSignature :=
  (other.offeredFunctions uri).filter fun f => !c.knowsFunction f.key

/-- No name is declared twice. -/
structure Distinct (c : StaticContext) : Prop where
  variableNames : (c.variableSignatures.map (·.name.expanded)).Nodup
  functionKeys : (c.functionSignatures.map FunctionSignature.key).Nodup

instance (c : StaticContext) : Decidable c.Distinct :=
  decidable_of_iff ((c.variableSignatures.map (·.name.expanded)).Nodup ∧
    (c.functionSignatures.map FunctionSignature.key).Nodup) ⟨fun h => ⟨h.1, h.2⟩, fun h => ⟨h.1, h.2⟩⟩

/-! ### Declaring one after the other -/

section

variable {κ σ : Type} {declare : StaticContext → σ → Bool × StaticContext} {key : σ → κ}
  {known : StaticContext → κ → Bool} {add : StaticContext → σ → StaticContext}

/-- Declarations with keys of their own do not get in one another's way: those whose keys are free are
added, and the names of the others come back. -/
theorem declareAll_eq (name : σ → QName)
    (hdeclare : ∀ c x, declare c x = if known c (key x) then (false, c) else (true, add c x))
    (hadd : ∀ c x k, key x ≠ k → known (add c x) k = known c k) {xs : List σ} (hkeys : (xs.map key).Nodup)
    (c : StaticContext) :
    declareAll declare name c xs =
      ((xs.filter fun x => known c (key x)).map name, (xs.filter fun x => !known c (key x)).foldl add c) := by
  induction xs generalizing c with
  | nil => rfl
  | cons x xs ih =>
    rw [List.map_cons, List.nodup_cons] at hkeys
    obtain ⟨hx, hxs⟩ := hkeys
    by_cases hknown : known c (key x) = true
    · simp only [declareAll, hdeclare c x, hknown, ih hxs, if_true, Bool.false_eq_true, if_false,
        List.filter_cons, List.map_cons, Bool.not_true]
    · have hfree : known c (key x) = false := Bool.eq_false_iff.2 hknown
      have hsame : ∀ y ∈ xs, known (add c x) (key y) = known c (key y) := fun y hy =>
        hadd c x (key y) fun e => hx (e ▸ List.mem_map_of_mem hy)
      have htaken : (xs.filter fun y => known (add c x) (key y)) = xs.filter fun y => known c (key y) :=
        List.filter_congr hsame
      have hleft : (xs.filter fun y => !known (add c x) (key y)) = xs.filter fun y => !known c (key y) :=
        List.filter_congr fun y hy => congrArg _ (hsame y hy)
      simp only [declareAll, hdeclare c x, hfree, ih hxs, htaken, hleft, if_true, Bool.false_eq_true, if_false,
        List.filter_cons, Bool.not_false, List.foldl_cons]

end

/-- More variables. -/
def withVariables (c : StaticContext) (vs : List VariableSignature) : StaticContext :=
  { c with variableSignatures := c.variableSignatures ++ vs }

/-- More functions. -/
def withFunctions (c : StaticContext) (fs : List FunctionSignature) : StaticContext :=
  { c with functionSignatures := c.functionSignatures ++ fs }

theorem foldl_withVariables (vs : List VariableSignature) (c : StaticContext) :
    vs.foldl (fun c v => c.withVariables [v]) c = c.withVariables vs := by
  induction vs generalizing c with
  | nil => simp [withVariables]
  | cons v vs ih =>
    rw [List.foldl_cons, ih]
    simp [withVariables]

theorem foldl_withFunctions (fs : List FunctionSignature) (c : StaticContext) :
    fs.foldl (fun c f => c.withFunctions [f]) c = c.withFunctions fs := by
  induction fs generalizing c with
  | nil => simp [withFunctions]
  | cons f fs ih =>
    rw [List.foldl_cons, ih]
    simp [withFunctions]

theorem knowsVariable_withVariables (c : StaticContext) (v : VariableSignature) (name : ExpandedName)
    (h : v.name.expanded ≠ name) : (c.withVariables [v]).knowsVariable name = c.knowsVariable name := by
  simp [knowsVariable, findVariable?, withVariables, List.find?_append, h]

theorem knowsFunction_withFunctions (c : StaticContext) (f : FunctionSignature) (key : ExpandedName × Nat)
    (h : f.key ≠ key) : (c.withFunctions [f]).knowsFunction key = c.knowsFunction key := by
  have hf : (f.name.expanded == key.1 && f.arity == key.2) = false := by
    rw [Bool.and_eq_false_imp]
    exact fun hname => beq_eq_false_iff_ne.2 fun harity => h (Prod.ext (beq_iff_eq.1 hname) harity)
  simp only [knowsFunction, findFunction?, withFunctions, List.find?_append, List.find?_singleton, hf,
    Bool.false_eq_true, if_false, Option.or_none]

theorem declareVariables_eq {vs : List VariableSignature} (h : (vs.map (·.name.expanded)).Nodup)
    (c : StaticContext) : declareAll declareVariable VariableSignature.name c vs =
      ((vs.filter fun v => c.knowsVariable v.name.expanded).map VariableSignature.name,
        c.withVariables (vs.filter fun v => !c.knowsVariable v.name.expanded)) := by
  rw [← foldl_withVariables]
  exact declareAll_eq _ (fun _ _ => rfl) knowsVariable_withVariables h c

theorem declareFunctions_eq {fs : List FunctionSignature} (h : (fs.map FunctionSignature.key).Nodup)
    (c : StaticContext) : declareAll declareFunction FunctionSignature.name c fs =
      ((fs.filter fun f => c.knowsFunction f.key).map FunctionSignature.name,
        c.withFunctions (fs.filter fun f => !c.knowsFunction f.key)) := by
  rw [← foldl_withFunctions]
  exact declareAll_eq _ (fun _ _ => rfl) knowsFunction_withFunctions h c

/-! ### Importing -/

theorem Distinct.offeredVariables {c : StaticContext} (h : c.Distinct) (uri : String) :
    ((c.offeredVariables uri).map (·.name.expanded)).Nodup :=
  h.variableNames.sublist (List.filter_sublist.map _)

theorem Distinct.offeredFunctions {c : StaticContext} (h : c.Distinct) (uri : String) :
    ((c.offeredFunctions uri).map FunctionSignature.key).Nodup :=
  h.functionKeys.sublist (List.filter_sublist.map _)

/-- The context behind an import: with it comes what is offered and free. -/
def joined (c other : StaticContext) (uri : String) : StaticContext :=
  (c.withVariables (c.freeVariables other uri)).withFunctions (c.freeFunctions other uri)

/-- What is offered and taken comes back, variables first, and the rest is added. -/
theorem importSignatures_eq {other : StaticContext} (h : other.Distinct) (c : StaticContext) (uri : String) :
    c.importSignatures other uri =
      ((c.takenVariables other uri).map VariableSignature.name ++
          (c.takenFunctions other uri).map FunctionSignature.name,
        c.joined other uri) := by
  have hvariables := declareVariables_eq (h.offeredVariables uri) c
  have hfunctions := declareFunctions_eq (h.offeredFunctions uri) (c.withVariables (c.freeVariables other uri))
  unfold offeredVariables at hvariables
  unfold freeVariables offeredVariables offeredFunctions at hfunctions
  simp only [importSignatures, hvariables, hfunctions]
  rfl

/-! ### Names stay distinct -/

theorem nodup_addNew {α κ : Type} (key : α → κ) {p : α → Bool} {xs : List α} {x : α}
    (hp : ∀ y, p y = true ↔ key y = key x) (h : (xs.map key).Nodup) : ((addNew p xs x).map key).Nodup := by
  unfold addNew
  split
  · exact h
  · rename_i hnew
    rw [List.map_append, List.nodup_append]
    refine ⟨h, by simp, ?_⟩
    rintro _ hy _ hx rfl
    obtain ⟨y, hy, hxy⟩ := List.mem_map.1 hy
    rw [List.map_singleton, List.mem_singleton] at hx
    exact hnew (List.find?_isSome.2 ⟨y, hy, (hp y).2 (hxy.trans hx)⟩)

theorem Distinct.declareVariable {c : StaticContext} (h : c.Distinct) (v : VariableSignature) :
    (c.declareVariable v).2.Distinct := by
  rw [declareVariable_eq]
  exact ⟨nodup_addNew (fun v : VariableSignature => v.name.expanded) (fun _ => beq_iff_eq) h.variableNames, h.functionKeys⟩

theorem functionNamed_iff {f f' : FunctionSignature} :
    functionNamed f.name.expanded f.arity f' = true ↔ f'.key = f.key := by
  rw [functionNamed, Bool.and_eq_true, beq_iff_eq, beq_iff_eq, FunctionSignature.key, FunctionSignature.key,
    Prod.mk.injEq]

theorem Distinct.declareFunction {c : StaticContext} (h : c.Distinct) (f : FunctionSignature) :
    (c.declareFunction f).2.Distinct := by
  rw [declareFunction_eq]
  exact ⟨h.variableNames, nodup_addNew _ (fun _ => functionNamed_iff) h.functionKeys⟩

theorem Distinct.declareAll {σ : Type} {declare : StaticContext → σ → Bool × StaticContext} {name : σ → QName}
    (hd : ∀ c x, c.Distinct → (declare c x).2.Distinct) {c : StaticContext} (h : c.Distinct) (xs : List σ) :
    (StaticContext.declareAll declare name c xs).2.Distinct := by
  induction xs generalizing c with
  | nil => exact h
  | cons x xs ih => exact ih (hd c x h)

theorem Distinct.importSignatures {c : StaticContext} (h : c.Distinct) (other : StaticContext) (uri : String) :
    (c.importSignatures other uri).2.Distinct :=
  .declareAll (fun _ f hc => hc.declareFunction f) (.declareAll (fun _ v hc => hc.declareVariable v) h _) _

theorem Distinct.of_signatures {c c' : StaticContext} (h : c.Distinct)
    (hv : c'.variableSignatures = c.variableSignatures) (hf : c'.functionSignatures = c.functionSignatures) :
    c'.Distinct := ⟨hv ▸ h.variableNames, hf ▸ h.functionKeys⟩

theorem Distinct.valued {c : StaticContext} (h : c.Distinct) (kind : DeclarationKind) : (c.valued kind).Distinct := by
  cases kind with
  | variableDecl d =>
    have hdeclared := h.declareVariable d.signature
    rwa [declareVariable_eq] at hdeclared
  | functionDecl d =>
    have harity : d.signature.arity = d.arity := List.length_map _
    have hdeclared := h.declareFunction d.signature
    rwa [declareFunction_eq, harity] at hdeclared
  | _ => exact h.of_signatures rfl rfl

theorem Distinct.declare {c : StaticContext} (h : c.Distinct) (kind : DeclarationKind) : (c.declare kind).Distinct := by
  obtain ⟨bindings, frames, given, hd⟩ := exists_declare c kind
  have hbefore : ({ c with bindings, frames, declared := given } : StaticContext).Distinct :=
    h.of_signatures rfl rfl
  rw [hd]
  exact hbefore.valued kind

theorem Distinct.agrees {c c' : StaticContext} (h : c.Distinct) (ha : c.Agrees c') : c'.Distinct := by
  obtain ⟨_, _, rfl⟩ := ha.exists_bindings
  exact h.of_signatures rfl rfl

theorem distinct_contextBefore (m : Module) (config : Config) : (m.contextBefore (.ofConfig config)).Distinct := by
  have hnone : (ofConfig config).Distinct := ⟨List.nodup_nil, List.nodup_nil⟩
  cases m with
  | main _ _ => exact hnone
  | library qualifier uri _ =>
    change ((ofConfig config).bind qualifier uri).Distinct
    rw [bind_eq]
    exact hnone.of_signatures rfl rfl

/-- However a module is parsed, no name is twice in its context. -/
theorem distinct_of_parseModuleWith {σ : Type} {importer : Option (Importer σ)} {kind : Option ModuleKind}
    {text : String} {config : Config} {imports : σ} {m : ParsedModule}
    (h : (parseModuleWith importer kind text config imports).1 = .ok m) : m.context.Distinct := by
  cases importer with
  | none =>
    refine .agrees ?_ ((sound_of_parseModuleWith h).context rfl)
    have hstart := distinct_contextBefore m.module config
    generalize m.module.contextBefore (.ofConfig config) = c at hstart
    induction m.module.declared generalizing c with
    | nil => exact hstart
    | cons kind kinds ih => exact ih _ (hstart.declare kind)
  | some importer =>
    let I : Lasting importer m.id :=
      { holds := fun _ c _ => c.Distinct
        agrees := .agrees
        declare := fun kind hc => hc.declare kind
        load := by
          intro ds c c₀ i i₀ library location _ _ _ hc
          unfold receive
          split
          · split
            · exact hc.importSignatures _ _
            · exact hc
          · exact hc }
    exact I.of_parse (Prod.ext h rfl) (distinct_contextBefore m.module config)

end StaticContext

namespace Grammar

open XQuerySyntax.Parser

/-- The report of a variable that is taken. -/
def variableClash (offset : Nat) (name : QName) : Diagnostic :=
  .error .duplicateVariable offset ("imported variable " ++ name.text ++ " clashes with an existing declaration")

/-- The report of a function that is taken. -/
def functionClash (offset : Nat) (name : QName) : Diagnostic :=
  .error .duplicateFunction offset ("imported function " ++ name.text ++ " clashes with an existing declaration")

/-- The report of a name that is taken, by what the imported module knows it for. -/
def nameClash (loaded : StaticContext) (offset : Nat) (name : QName) : Diagnostic :=
  if loaded.knowsVariable name.expanded then variableClash offset name else functionClash offset name

/-- What is reported of names, one after the other. -/
theorem forIn_record_eq {α : Type} {body : α → Parser PUnit} {report : α → Diagnostic}
    (h : ∀ x s, body x s = .ok () { s with recorded := s.recorded ++ [report x] }) (xs : List α) (s : ParserState) :
    (forIn xs PUnit.unit fun x _ => do
      body x
      return ForInStep.yield PUnit.unit : Parser PUnit) s =
      .ok () { s with recorded := s.recorded ++ xs.map report } := by
  induction xs generalizing s with
  | nil => simp [pure, EStateM.pure]
  | cons x xs ih =>
    rw [List.forIn_cons, bind_assoc]
    refine (bind_of_ok (h x s)).trans ((ih _).trans ?_)
    rw [List.map_cons, List.append_assoc, List.singleton_append]

/-- The module that is taken over knows the variables that it offers. -/
theorem knowsVariable_of_offered {c : StaticContext} {uri : String} {v : VariableSignature}
    (h : v ∈ c.offeredVariables uri) : c.knowsVariable v.name.expanded = true :=
  List.find?_isSome.2 ⟨v, (List.mem_filter.1 h).1, beq_self_eq_true _⟩

/-- The reports of what an import offers and the importing module has: first the variables, then the
functions. -/
def clashes (c loaded : StaticContext) (uri : String) (offset : Nat) : List Diagnostic :=
  (c.takenVariables loaded uri).map (variableClash offset ·.name) ++
    (c.takenFunctions loaded uri).map (nameClash loaded offset ·.name)

theorem takeOver_eq {loaded : ParsedModule} {uri : String} (hd : loaded.context.Distinct)
    (hns : loaded.targetNamespace? = some uri) (location : String) (offset : Nat) (s : ParserState) :
    takeOver loaded location uri offset s = .ok () { s with
      context := s.context.joined loaded.context uri
      recorded := s.recorded ++ clashes s.context loaded.context uri offset } := by
  let symbol (name : QName) : ErrorCode × String :=
    if (loaded.context.findVariable? name.expanded).isSome then (.duplicateVariable, "variable")
    else (.duplicateFunction, "function")
  have hrecord (name : QName) (s : ParserState) : record (symbol name).1 offset
      ("imported " ++ (symbol name).2 ++ " " ++ name.text ++ " clashes with an existing declaration") s =
      .ok () { s with recorded := s.recorded ++ [nameClash loaded.context offset name] } := by
    dsimp only [symbol]
    unfold nameClash StaticContext.knowsVariable
    split <;> rfl
  have hvariables : ∀ v ∈ s.context.takenVariables loaded.context uri,
      nameClash loaded.context offset v.name = variableClash offset v.name := fun v hv =>
    if_pos (knowsVariable_of_offered (List.mem_filter.1 hv).1)
  have hamend : amendGet (·.importSignatures loaded.context uri) s =
      .ok (s.context.importSignatures loaded.context uri).1
        { s with context := (s.context.importSignatures loaded.context uri).2 } := rfl
  unfold takeOver
  rw [if_neg (not_not.2 hns)]
  refine (bind_of_ok hamend).trans ((bind_of_ok (forIn_record_eq hrecord _ _)).trans ?_)
  rw [StaticContext.importSignatures_eq hd, List.map_append, List.map_map, List.map_map]
  simp only [clashes, Function.comp_def, List.map_congr_left hvariables]
  rfl

/-- The reports tell variables and functions apart where no function that is taken shares its name with a
variable of the imported module. -/
theorem clashes_eq_iff (c loaded : StaticContext) (uri : String) (offset : Nat) :
    clashes c loaded uri offset = (c.takenVariables loaded uri).map (variableClash offset ·.name) ++
        (c.takenFunctions loaded uri).map (functionClash offset ·.name) ↔
      ∀ f ∈ c.takenFunctions loaded uri, loaded.knowsVariable f.name.expanded = false := by
  rw [clashes, List.append_cancel_left_eq, List.map_inj_left]
  refine forall₂_congr fun f _ => ?_
  unfold nameClash
  constructor
  · intro h
    by_contra hv
    rw [if_pos (Bool.not_eq_false _ ▸ hv)] at h
    exact absurd (congrArg Diagnostic.code h) nofun
  · intro h
    rw [if_neg (Bool.eq_false_iff.1 h)]

/-- Importing a module that has been loaded, in whose context no name is declared twice. What the importing
module has stays as it is and comes first, what the import offers and is free comes behind it, and nothing
else changes but for one report of each name that is taken. The reports are those of a variable for the
variables and those of a function for the functions, except where a function shares its name with a variable
of the loaded module, whatever that variable is. -/
theorem import_adds_what_is_free {σ : Type} {importer : Importer σ} {location uri : String} {imports imports' : σ}
    {loaded : ParsedModule} (hload : importer.load location imports = (.ok loaded, imports'))
    (hdistinct : loaded.context.Distinct) (hns : loaded.targetNamespace? = some uri) (offset : Nat)
    (s : ParserState) :
    loadFrom importer uri offset location (s, imports) = .ok () ({ s with
      context := { s.context with
        variableSignatures := s.context.variableSignatures ++ s.context.freeVariables loaded.context uri
        functionSignatures := s.context.functionSignatures ++ s.context.freeFunctions loaded.context uri }
      recorded := s.recorded ++ clashes s.context loaded.context uri offset }, imports') ∧
    (clashes s.context loaded.context uri offset =
        (s.context.takenVariables loaded.context uri).map (variableClash offset ·.name) ++
          (s.context.takenFunctions loaded.context uri).map (functionClash offset ·.name) ↔
      ∀ f ∈ s.context.takenFunctions loaded.context uri,
        loaded.context.knowsVariable f.name.expanded = false) := by
  refine ⟨?_, clashes_eq_iff _ _ _ _⟩
  unfold loadFrom
  simp only [hload, lift, takeOver_eq hdistinct hns]
  rfl

end Grammar

/-- Two modules of one namespace with the same function. One has a variable of the same name, too. -/
def namesakes : MemorySources :=
  [("a.xq", "module namespace l='urn:l'; declare function l:x() {1};"),
    ("b.xq", "module namespace l='urn:l'; declare variable $l:x := 1; declare function l:x() {1};")]

/-- What the first module offers and what is taken of it where its function is declared, and what a main module
has that imports both. -/
theorem parse_namesakes :
    (parseLibraryModule "module namespace l='urn:l'; declare function l:x() {2};" .standard).toOption.any (fun m =>
        (Loader.inMemory.load "a.xq" (.ofSources namesakes)).1.toOption.any fun loaded : ParsedModule =>
          decide (loaded.targetNamespace? = some "urn:l" ∧ loaded.context.Distinct ∧
            (m.context.functionSignatures ++ m.context.freeFunctions loaded.context "urn:l").length = 1 ∧
            (Grammar.clashes m.context loaded.context "urn:l" 0).map Diagnostic.code = [.duplicateFunction])) ∧
      (Loader.inMemory.compileMain "import module namespace l='urn:l' at 'a.xq', 'b.xq'; 1" none
        (.ofSources namesakes)).1.toOption.any (fun m => decide (m.context.functionSignatures.length = 1 ∧
          m.context.variableSignatures.length = 1 ∧ m.diagnostics.map Diagnostic.code = [.duplicateVariable])) := by
  decide +kernel

open Grammar in
/-- Behind a declaration of its function, a module that has nothing else adds nothing, and the function is
reported. -/
theorem import_of_declared_function_is_reported :
    ∃ m, parseLibraryModule "module namespace l='urn:l'; declare function l:x() {2};" .standard = .ok m ∧
      Ends (fun _ s => s.1.context.functionSignatures.length = 1 ∧
          s.1.recorded.map Diagnostic.code = [.duplicateFunction])
        (fun _ _ => False)
        (loadFrom (Loader.importerOf Loader.inMemory.load) "urn:l" 0 "a.xq"
          ({ ParserState.ofText "" .standard with context := m.context }, .ofSources namesakes)) := by
  obtain ⟨m, hm, htest⟩ := exists_ok_of_any _ parse_namesakes.1
  obtain ⟨loaded, hloaded, htest⟩ := exists_ok_of_any _ htest
  obtain ⟨hns, hdistinct, hfunctions, hclashes⟩ := of_decide_eq_true htest
  have himport := (import_adds_what_is_free (show (Loader.importerOf Loader.inMemory.load).load _ _ = _ from Prod.fst_eq_iff.1 hloaded)
    hdistinct hns 0 { ParserState.ofText "" .standard with context := m.context }).1
  refine ⟨m, hm, ?_⟩
  rw [himport]
  exact ⟨hfunctions, hclashes⟩

/-- The function is taken, the variable is not, and what is reported is a variable. -/
theorem import_of_namesake_is_reported_as_variable :
    ∃ m, ((Loader.inMemory.compileMain "import module namespace l='urn:l' at 'a.xq', 'b.xq'; 1" none (.ofSources namesakes)).1 = .ok m) ∧
      m.context.functionSignatures.length = 1 ∧ m.context.variableSignatures.length = 1 ∧
      m.diagnostics.map Diagnostic.code = [.duplicateVariable] := by
  obtain ⟨m, hm, htest⟩ := exists_ok_of_any _ parse_namesakes.2
  exact ⟨m, hm, of_decide_eq_true htest⟩

end XQuerySyntax
