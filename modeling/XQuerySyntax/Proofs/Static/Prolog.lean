import XQuerySyntax.Proofs.Static.Declare
import XQuerySyntax.Proofs.Tree.Parse

/-! A static context that reflects declarations: what each of its parts holds, said of the
declarations without going through them one by one. Behind a whole parse the context reflects the prolog. -/

namespace XQuerySyntax

namespace StaticContext

/-- The namespace that a binding gives to a qualifier; the empty one takes the qualifier out of
scope. -/
def namespaceFor (qualifier : String) (p : String × String) : Option (Option String) :=
  if p.1 = qualifier then some (if p.2 = "" then none else some p.2) else none

/-- The context holds what the declarations say, on top of another context: of a setting, an option
or a qualifier the last value; of a variable, a function, a decimal format or an import the first
declaration; and as given the settings that some declaration gives. -/
structure Reflects (c₀ : StaticContext) (ds : List DeclarationKind) (c : StaticContext) : Prop where
  boundarySpace : c.boundarySpace = lastSaid (fun
    | .boundarySpace policy => some policy
    | _ => none) ds c₀.boundarySpace
  defaultCollation : c.defaultCollation = lastSaid (fun
    | .defaultCollation uri => some (some uri)
    | _ => none) ds c₀.defaultCollation
  baseUri : c.baseUri = lastSaid (fun
    | .baseUri uri => some (some uri)
    | _ => none) ds c₀.baseUri
  construction : c.construction = lastSaid (fun
    | .construction mode => some mode
    | _ => none) ds c₀.construction
  ordering : c.ordering = lastSaid (fun
    | .ordering mode => some mode
    | _ => none) ds c₀.ordering
  emptyOrder : c.emptyOrder = lastSaid (fun
    | .emptyOrder order => some order
    | _ => none) ds c₀.emptyOrder
  copyNamespacesPreserve : c.copyNamespacesPreserve = lastSaid (fun
    | .copyNamespaces preserve _ => some preserve
    | _ => none) ds c₀.copyNamespacesPreserve
  copyNamespacesInherit : c.copyNamespacesInherit = lastSaid (fun
    | .copyNamespaces _ inherit => some inherit
    | _ => none) ds c₀.copyNamespacesInherit
  functionNamespace : c.functionNamespace = lastSaid (fun
    | .defaultNamespace .function uri => some uri
    | _ => none) ds c₀.functionNamespace
  revalidation : c.revalidation = lastSaid (fun
    | .revalidation mode => some (some mode)
    | _ => none) ds c₀.revalidation
  contextItemType : c.contextItemType = lastSaid (fun
    | .contextItem itemType _ _ => some itemType
    | _ => none) ds c₀.contextItemType
  ftOptions : c.ftOptions = lastSaid (fun
    | .ftOption options => some (some options)
    | _ => none) ds c₀.ftOptions
  options : ∀ n, c.options.get? n = lastSaid (fun
    | .option name value => if name.expanded = n then some (some value) else none
    | _ => none) ds (c₀.options.get? n)
  namespaces : ∀ q, c.resolve? q =
    lastSaid (namespaceFor q) (ds.flatMap DeclarationKind.namespaces) (c₀.resolve? q)
  decimalFormats : ∀ n, c.decimalFormats.get? n = (c₀.decimalFormats.get? n).or (ds.findSome? fun
    | .decimalFormat name properties =>
      if name.map QName.expanded = n then some properties else none
    | _ => none)
  moduleImports : ∀ uri, c.moduleImports.get? uri = (c₀.moduleImports.get? uri).or (ds.findSome? fun
    | .moduleImport m => if m.targetNamespace = uri then some m.locations else none
    | _ => none)
  schemaImports : ∀ uri, c.schemaImports.get? uri = (c₀.schemaImports.get? uri).or (ds.findSome? fun
    | .schemaImport s => if s.targetNamespace = uri then some s.locations else none
    | _ => none)
  knownVariables : ∀ n, c.findVariable? n = (c₀.findVariable? n).or (ds.findSome? fun
    | .variableDecl d => if d.name.expanded = n then some d.signature else none
    | _ => none)
  knownFunctions : ∀ n arity, c.findFunction? n arity =
    (c₀.findFunction? n arity).or (ds.findSome? fun
      | .functionDecl d =>
        if d.name.expanded = n ∧ d.arity = arity then some d.signature else none
      | _ => none)
  given : ∀ s, c.isDeclared s ↔ c₀.isDeclared s ∨ ∃ d ∈ ds, d.setter? = some s

variable {c c' : StaticContext}

/-! ### Namespaces -/

theorem resolve?_bind (c : StaticContext) (qualifier uri q : String) :
    (c.bind qualifier uri).resolve? q = (namespaceFor q (qualifier, uri)).getD (c.resolve? q) := by
  rw [resolve?, bind_eq, get?_bound, namespaceFor]
  by_cases hq : qualifier = q
  · rw [if_pos hq, if_pos hq, Option.getD_some]
    by_cases hu : uri = ""
    · rw [if_pos hu]
      split
      · rfl
      · simp [hu]
    · simp [hu]
  · rw [if_neg hq, if_neg hq]
    rfl

theorem resolve?_bindAll (c : StaticContext) (pairs : List (String × String)) (q : String) :
    (c.bindAll pairs).resolve? q = lastSaid (namespaceFor q) pairs (c.resolve? q) :=
  foldl_lastSaid (fun c => c.resolve? q) (fun c p => resolve?_bind c p.1 p.2 q) pairs c

theorem resolve?_declare (c : StaticContext) (d : DeclarationKind) (q : String) :
    (c.declare d).resolve? q = lastSaid (namespaceFor q) d.namespaces (c.resolve? q) := by
  rw [← resolve?_bindAll, resolve?, bindings_declare]
  rfl

theorem resolve?_declareInOrder (ds : List DeclarationKind) (c : StaticContext) (q : String) :
    (c.declareInOrder ds).resolve? q =
      lastSaid (namespaceFor q) (ds.flatMap DeclarationKind.namespaces) (c.resolve? q) := by
  induction ds generalizing c with
  | nil => rfl
  | cons d ds ih =>
    refine (ih _).trans ?_
    rw [resolve?_declare, List.flatMap_cons, lastSaid, lastSaid, lastSaid, List.reverse_append,
      List.findSome?_append]
    cases (ds.flatMap DeclarationKind.namespaces).reverse.findSome? (namespaceFor q) <;> rfl

/-! ### Names -/

theorem get?_putNew {κ ν : Type} [DecidableEq κ] (t : Table κ ν) (k : κ) (v : ν) (k' : κ) :
    (putNew t k v).get? k' = (t.get? k').or (if k = k' then some v else none) := by
  unfold putNew
  by_cases h : k = k'
  · subst h
    rw [if_pos rfl, Table.has]
    cases hk : t.get? k with
    | none => exact (Table.get?_put t k v k).trans (if_pos rfl)
    | some _ => exact hk
  · rw [if_neg h, Option.or_none]
    split
    · rfl
    · rw [Table.get?_put, if_neg h]

theorem find?_addNew {α : Type} {p q : α → Bool} {x : α} (h : p x → q = p) (xs : List α) :
    (addNew q xs x).find? p = (xs.find? p).or (if p x then some x else none) := by
  have happend : (xs ++ [x]).find? p = (xs.find? p).or (if p x then some x else none) := by
    rw [List.find?_append, List.find?_singleton]
  unfold addNew
  split
  · rename_i hq
    by_cases hx : p x
    · rw [h hx] at hq
      obtain ⟨y, hy⟩ := Option.isSome_iff_exists.1 hq
      rw [hy]
      rfl
    · rw [if_neg hx, Option.or_none]
  · exact happend

/-! ### Declarations in order -/

/-- A part of the context that neither namespaces nor marks of settings belong to. -/
def Apart {α : Type} (read : StaticContext → α) : Prop :=
  ∀ c bindings frames given, read { c with bindings, frames, declared := given } = read c

/-- If values are all that a part of the context depends on, its last value wins. -/
theorem lastSaid_of_valued {α : Type} (read : StaticContext → α) {say : DeclarationKind → Option α}
    (c : StaticContext) (ds : List DeclarationKind)
    (h : ∀ c d, read (c.valued d) = (say d).getD (read c) := by intro c d; cases d <;> rfl)
    (ha : Apart read := by exact fun _ _ _ _ => rfl) :
    read (c.declareInOrder ds) = lastSaid say ds (read c) := by
  refine foldl_lastSaid read (fun c d => ?_) ds c
  obtain ⟨bindings, frames, given, hd⟩ := exists_declare c d
  rw [hd, h, ha]

/-- The same of a part whose first value wins. -/
theorem firstSaid_of_valued {α : Type} (read : StaticContext → Option α)
    {say : DeclarationKind → Option α} (c : StaticContext) (ds : List DeclarationKind)
    (h : ∀ c d, read (c.valued d) = (read c).or (say d))
    (ha : Apart read := by exact fun _ _ _ _ => rfl) :
    read (c.declareInOrder ds) = (read c).or (ds.findSome? say) := by
  refine foldl_firstSaid read (fun c d => ?_) ds c
  obtain ⟨bindings, frames, given, hd⟩ := exists_declare c d
  rw [hd, h, ha]

/-- The context behind declarations reflects them. -/
theorem reflects_declareInOrder (c : StaticContext) (ds : List DeclarationKind) :
    Reflects c ds (c.declareInOrder ds) where
  boundarySpace := lastSaid_of_valued boundarySpace c ds
  defaultCollation := lastSaid_of_valued defaultCollation c ds
  baseUri := lastSaid_of_valued baseUri c ds
  construction := lastSaid_of_valued construction c ds
  ordering := lastSaid_of_valued ordering c ds
  emptyOrder := lastSaid_of_valued emptyOrder c ds
  copyNamespacesPreserve := lastSaid_of_valued copyNamespacesPreserve c ds
  copyNamespacesInherit := lastSaid_of_valued copyNamespacesInherit c ds
  functionNamespace := by
    refine lastSaid_of_valued functionNamespace c ds fun c d => ?_
    cases d with
    | defaultNamespace kind uri => cases kind <;> rfl
    | _ => rfl
  revalidation := lastSaid_of_valued revalidation c ds
  contextItemType := lastSaid_of_valued contextItemType c ds
  ftOptions := lastSaid_of_valued ftOptions c ds
  options n := by
    refine lastSaid_of_valued (fun c => c.options.get? n) c ds fun c d => ?_
    cases d with
    | option name value =>
      refine (Table.get?_put c.options name.expanded value n).trans ?_
      by_cases h : name.expanded = n <;> simp [h]
    | _ => rfl
  namespaces := resolve?_declareInOrder ds c
  decimalFormats n := by
    refine firstSaid_of_valued (fun c => c.decimalFormats.get? n) c ds fun c d => ?_
    cases d with
    | decimalFormat name properties => exact get?_putNew _ _ _ _
    | _ => exact (Option.or_none).symm
  moduleImports uri := by
    refine firstSaid_of_valued (fun c => c.moduleImports.get? uri) c ds fun c d => ?_
    cases d with
    | moduleImport m => exact get?_putNew _ _ _ _
    | _ => exact (Option.or_none).symm
  schemaImports uri := by
    refine firstSaid_of_valued (fun c => c.schemaImports.get? uri) c ds fun c d => ?_
    cases d with
    | schemaImport s => exact get?_putNew _ _ _ _
    | _ => exact (Option.or_none).symm
  knownVariables n := by
    refine firstSaid_of_valued (fun c => c.findVariable? n) c ds fun c d => ?_
    cases d with
    | variableDecl d =>
      have hnamed : variableNamed n d.signature ↔ d.name.expanded = n := beq_iff_eq
      refine (find?_addNew (p := variableNamed n) (fun h => ?_) c.variableSignatures).trans ?_
      · rw [hnamed.1 h]
      · simp only [hnamed]
        rfl
    | _ => exact (Option.or_none).symm
  knownFunctions n arity := by
    refine firstSaid_of_valued (fun c => c.findFunction? n arity) c ds fun c d => ?_
    cases d with
    | functionDecl d =>
      have harity : d.signature.arity = d.arity := List.length_map _
      have hnamed : functionNamed n arity d.signature ↔ d.name.expanded = n ∧ d.arity = arity := by
        rw [functionNamed, Bool.and_eq_true, beq_iff_eq, beq_iff_eq, harity]
        rfl
      refine (find?_addNew (p := functionNamed n arity) (fun h => ?_) c.functionSignatures).trans ?_
      · rw [(hnamed.1 h).1, (hnamed.1 h).2]
      · simp only [hnamed]
        rfl
    | _ => exact (Option.or_none).symm
  given s := by
    induction ds generalizing c with
    | nil => simp [declareInOrder]
    | cons d ds ih =>
      refine (ih (c.declare d)).trans ?_
      simp only [isDeclared_declare, or_assoc, List.mem_cons, exists_eq_or_imp]

end StaticContext

end XQuerySyntax

/-! ### Whole parses

The static context behind a whole parse agrees with the tree: it is what the declarations of the
prolog make of the context before them. -/

namespace XQuerySyntax

open StaticContext

variable {c c₀ c' : StaticContext} {ds : List DeclarationKind}

theorem StaticContext.Reflects.of_agrees (h : Reflects c₀ ds c) (ha : c.Agrees c') :
    Reflects c₀ ds c' := by
  have hnamespaces (q : String) := (ha.resolve? q).trans (h.namespaces q)
  obtain ⟨b, hb, rfl⟩ := ha.exists_bindings
  exact { h with namespaces := hnamespaces }

theorem StaticContext.frames_declareInOrder (h : c.frames = []) :
    (c.declareInOrder ds).frames = [] := by
  induction ds generalizing c with
  | nil => exact h
  | cons d ds ih => exact ih (frames_declare h)

theorem Module.frames_contextBefore (m : Module) (h : c.frames = []) :
    (m.contextBefore c).frames = [] := by
  cases m with
  | main _ _ => exact h
  | library qualifier uri _ =>
    change (c.bind qualifier uri).frames = []
    rw [bind_eq, h]

/-- The context of a parsed module is that before its declarations with the effect of each of them in
order, and so it reflects them; no frame is left open. Only the order in which namespaces are kept may
differ, since frames inside expressions undo their bindings. -/
theorem context_agrees_with_declarations {kind : Option ModuleKind} {text : String} {config : Config}
    {m : ParsedModule} (h : parseModule kind text config = .ok m) :
    ((m.module.contextBefore (.ofConfig config)).declareInOrder m.module.declared).Agrees m.context ∧
      Reflects (m.module.contextBefore (.ofConfig config)) m.module.declared m.context ∧
      m.context.frames = [] := by
  have ha := (sound_of_parseModuleWith h).context rfl
  refine ⟨ha, (reflects_declareInOrder _ _).of_agrees ha, ?_⟩
  rw [ha.frames]
  exact frames_declareInOrder (m.module.frames_contextBefore rfl)

/-- The initial value of a variable may bind the qualifier of the library for itself. -/
theorem context_behind_rebinding : ∃ m,
    parseModule none "module namespace p='u';declare variable $p:x:=<a xmlns:p='v'/>;" .standard =
      .ok m ∧ m.context.resolve? "p" = some "u" ∧
    Reflects (m.module.contextBefore (.ofConfig .standard)) m.module.declared m.context := by
  obtain ⟨m, hm, hp⟩ := exists_ok_of_any
    (r := parseModule none "module namespace p='u';declare variable $p:x:=<a xmlns:p='v'/>;" .standard)
    (fun m => m.context.resolve? "p" == some "u") (by
      rw [parseModule_eq, String.toList_ofList]
      decide +kernel)
  exact ⟨m, hm, beq_iff_eq.1 hp, (context_agrees_with_declarations hm).2.1⟩

end XQuerySyntax
