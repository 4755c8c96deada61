import XQuerySyntax.Grammar.Function
import XQuerySyntax.Proofs.Static.Agrees

/-! What declarations make of a static context. Each declaration has its effect on the context alone,
and the context behind a prolog is that of all its declarations in order: the last value of a setting
wins, and the first declaration of a name. -/

namespace XQuerySyntax

/-- What a variable is known by outside its declaration. -/
def VariableDecl.signature (d : VariableDecl) : VariableSignature where
  name := d.name
  typeDecl := d.typeDecl
  isExternal := d.isExternal
  isPublic := AnnotationDecl.isPublic d.annotations

/-- What a function is known by outside its declaration. -/
def FunctionDecl.signature (d : FunctionDecl) : FunctionSignature where
  name := d.name
  params := d.params.map Param.typeDecl
  returnType := d.returnType
  kind := d.kind
  isExternal := d.body.isNone
  isPublic := AnnotationDecl.isPublic d.annotations

namespace DeclarationKind

/-- The setting that a declaration gives, of those that may be given once. -/
def setter? : DeclarationKind → Option Setter
  | boundarySpace _ => some .boundarySpace
  | defaultCollation _ => some .defaultCollation
  | baseUri _ => some .baseUri
  | construction _ => some .construction
  | ordering _ => some .ordering
  | emptyOrder _ => some .emptyOrder
  | copyNamespaces .. => some .copyNamespaces
  | defaultNamespace .element _ => some .defaultElementNamespace
  | defaultNamespace .function _ => some .defaultFunctionNamespace
  | schemaImport s => if s.defaultElementNamespace then some .defaultElementNamespace else none
  | contextItem .. => some .contextItem
  | revalidation _ => some .revalidation
  | _ => none

/-- The qualifiers that a declaration binds, in order; the empty one is that of elements. -/
def namespaces : DeclarationKind → List (String × String)
  | namespaceDecl qualifier uri => [(qualifier, uri)]
  | defaultNamespace .element uri => [("", uri)]
  | schemaImport s =>
    s.qualifier.toList.map (·, s.targetNamespace) ++
      if s.defaultElementNamespace then [("", s.targetNamespace)] else []
  | moduleImport m => m.qualifier.toList.map (·, m.targetNamespace)
  | _ => []

end DeclarationKind

namespace StaticContext

/-- Binds qualifiers one after the other. -/
def bindAll (c : StaticContext) (pairs : List (String × String)) : StaticContext :=
  pairs.foldl (fun c p => c.bind p.1 p.2) c

/-- Marks a setting as given, if there is one. -/
def claimed (c : StaticContext) : Option Setter → StaticContext
  | none => c
  | some s => (c.claim s).2

/-- The effect of a declaration apart from the namespaces that it binds and the setting that it
marks as given. -/
def valued (c : StaticContext) : DeclarationKind → StaticContext
  | .boundarySpace policy => { c with boundarySpace := policy }
  | .defaultCollation uri => { c with defaultCollation := some uri }
  | .baseUri uri => { c with baseUri := some uri }
  | .construction mode => { c with construction := mode }
  | .ordering mode => { c with ordering := mode }
  | .emptyOrder order => { c with emptyOrder := order }
  | .copyNamespaces preserve inherit =>
    { c with copyNamespacesPreserve := preserve, copyNamespacesInherit := inherit }
  | .decimalFormat name properties =>
    { c with decimalFormats := putNew c.decimalFormats (name.map QName.expanded) properties }
  | .namespaceDecl .. => c
  | .defaultNamespace kind uri =>
    { c with functionNamespace := if kind = .function then uri else c.functionNamespace }
  | .schemaImport s =>
    { c with schemaImports := putNew c.schemaImports s.targetNamespace s.locations }
  | .moduleImport m =>
    { c with moduleImports := putNew c.moduleImports m.targetNamespace m.locations }
  | .contextItem itemType _ _ => { c with contextItemType := itemType }
  | .variableDecl d =>
    { c with variableSignatures :=
        addNew (variableNamed d.name.expanded) c.variableSignatures d.signature }
  | .functionDecl d =>
    { c with functionSignatures :=
        addNew (functionNamed d.name.expanded d.arity) c.functionSignatures d.signature }
  | .option name value => { c with options := c.options.put name.expanded value }
  | .ftOption options => { c with ftOptions := some options }
  | .revalidation mode => { c with revalidation := some mode }

/-- The context behind a declaration. -/
def declare (c : StaticContext) (d : DeclarationKind) : StaticContext :=
  ((c.bindAll d.namespaces).claimed d.setter?).valued d

/-- The context behind declarations in order. -/
def declareInOrder (c : StaticContext) (ds : List DeclarationKind) : StaticContext :=
  ds.foldl declare c

variable {c c' : StaticContext}

/-! ### Contexts that agree -/

theorem Agrees.bindAll (h : c.Agrees c') (pairs : List (String × String)) :
    (c.bindAll pairs).Agrees (c'.bindAll pairs) := by
  induction pairs generalizing c c' with
  | nil => exact h
  | cons p pairs ih => exact ih (h.bind p.1 p.2)

theorem Agrees.claimed (h : c.Agrees c') (s : Option Setter) :
    (c.claimed s).Agrees (c'.claimed s) := by
  obtain ⟨b, hb, rfl⟩ := h.exists_bindings
  cases s with
  | none => exact h
  | some s =>
    rw [StaticContext.claimed, StaticContext.claimed, claim_eq, claim_eq]
    exact ⟨hb, rfl⟩

theorem Agrees.valued (h : c.Agrees c') (d : DeclarationKind) :
    (c.valued d).Agrees (c'.valued d) := by
  obtain ⟨b, hb, rfl⟩ := h.exists_bindings
  cases d <;> exact ⟨hb, rfl⟩

theorem Agrees.declare (h : c.Agrees c') (d : DeclarationKind) :
    (c.declare d).Agrees (c'.declare d) :=
  ((h.bindAll d.namespaces).claimed d.setter?).valued d

theorem Agrees.declareInOrder (h : c.Agrees c') (ds : List DeclarationKind) :
    (c.declareInOrder ds).Agrees (c'.declareInOrder ds) := by
  induction ds generalizing c c' with
  | nil => exact h
  | cons d ds ih => exact ih (h.declare d)

theorem bindAll_append (c : StaticContext) (pairs pairs' : List (String × String)) :
    c.bindAll (pairs ++ pairs') = (c.bindAll pairs).bindAll pairs' := List.foldl_append

/-- It is all the same whether a setting is marked as given before or behind a binding. -/
theorem bind_claimed (c : StaticContext) (s : Option Setter) (qualifier uri : String) :
    (c.claimed s).bind qualifier uri = (c.bind qualifier uri).claimed s := by
  cases s with
  | none => rfl
  | some s =>
    rw [claimed, claimed, claim_eq, claim_eq, bind_eq, bind_eq]
    rfl

/-! ### What a declaration changes -/

/-- Bindings change the namespaces alone. -/
theorem exists_bindAll (pairs : List (String × String)) :
    ∃ bindings frames, c.bindAll pairs = { c with bindings, frames } := by
  induction pairs generalizing c with
  | nil => exact ⟨c.bindings, c.frames, rfl⟩
  | cons p pairs ih =>
    obtain ⟨bindings, frames, h⟩ := ih (c := c.bind p.1 p.2)
    refine ⟨bindings, frames, h.trans ?_⟩
    rw [bind_eq]

theorem exists_claimed (s : Option Setter) : ∃ given, c.claimed s = { c with declared := given } := by
  cases s with
  | none => exact ⟨c.declared, rfl⟩
  | some s => exact ⟨_, claim_eq c s⟩

/-- Apart from the namespaces and the marks of settings, a declaration changes what its value does. -/
theorem exists_declare (c : StaticContext) (d : DeclarationKind) :
    ∃ bindings frames given,
      c.declare d = ({ c with bindings, frames, declared := given } : StaticContext).valued d := by
  obtain ⟨bindings, frames, hbind⟩ := exists_bindAll (c := c) d.namespaces
  obtain ⟨given, hclaim⟩ := exists_claimed (c := c.bindAll d.namespaces) d.setter?
  refine ⟨bindings, frames, given, ?_⟩
  rw [StaticContext.declare, hclaim, hbind]

/-- The value of a declaration leaves the namespaces and the marks of settings as they are. -/
theorem valued_others (c : StaticContext) (d : DeclarationKind) :
    (c.valued d).bindings = c.bindings ∧ (c.valued d).frames = c.frames ∧
      (c.valued d).declared = c.declared := by
  cases d <;> exact ⟨rfl, rfl, rfl⟩

theorem bindings_declare (c : StaticContext) (d : DeclarationKind) :
    (c.declare d).bindings = (c.bindAll d.namespaces).bindings := by
  obtain ⟨given, hclaim⟩ := exists_claimed (c := c.bindAll d.namespaces) d.setter?
  rw [declare, (valued_others _ d).1, hclaim]

theorem frames_declare {d : DeclarationKind} (h : c.frames = []) : (c.declare d).frames = [] := by
  have hbind (pairs : List (String × String)) : (c.bindAll pairs).frames = [] := by
    induction pairs generalizing c with
    | nil => exact h
    | cons p pairs ih =>
      refine ih ?_
      change (c.bind p.1 p.2).frames = []
      rw [bind_eq, h]
  obtain ⟨given, hclaim⟩ := exists_claimed (c := c.bindAll d.namespaces) d.setter?
  rw [declare, (valued_others _ d).2.1, hclaim]
  exact hbind _

theorem isDeclared_iff (c : StaticContext) (s : Setter) : c.isDeclared s ↔ s ∈ c.declared :=
  List.contains_iff_mem

theorem isDeclared_declare (c : StaticContext) (d : DeclarationKind) (s : Setter) :
    (c.declare d).isDeclared s ↔ c.isDeclared s ∨ d.setter? = some s := by
  obtain ⟨bindings, frames, hbind⟩ := exists_bindAll (c := c) d.namespaces
  rw [isDeclared_iff, isDeclared_iff, declare, (valued_others _ d).2.2, hbind]
  cases d.setter? with
  | none => exact (or_iff_left fun h => nomatch h).symm
  | some s' =>
    rw [claimed, claim_eq]
    change s ∈ (if c.isDeclared s' then c.declared else c.declared ++ [s']) ↔ _
    split
    · rename_i hd
      refine ⟨.inl, ?_⟩
      rintro (h | ⟨⟨⟩⟩)
      · exact h
      · exact (isDeclared_iff c s).1 hd
    · rw [List.mem_append, List.mem_singleton, Option.some_inj, eq_comm (a := s)]

/-! ### Declarations in order -/

section

variable {α σ δ : Type}

/-- What the last of several declarations that say something says, or else a given value. -/
def lastSaid (say : δ → Option α) (ds : List δ) (initial : α) : α :=
  (ds.reverse.findSome? say).getD initial

theorem foldl_lastSaid {step : σ → δ → σ} (read : σ → α) {say : δ → Option α}
    (h : ∀ c d, read (step c d) = (say d).getD (read c)) (ds : List δ) (c : σ) :
    read (ds.foldl step c) = lastSaid say ds (read c) := by
  induction ds generalizing c with
  | nil => rfl
  | cons d ds ih =>
    rw [List.foldl_cons, ih, h, lastSaid, lastSaid, List.reverse_cons, List.findSome?_append]
    cases ds.reverse.findSome? say <;> simp

theorem foldl_firstSaid {step : σ → δ → σ} (read : σ → Option α) {say : δ → Option α}
    (h : ∀ c d, read (step c d) = (read c).or (say d)) (ds : List δ) (c : σ) :
    read (ds.foldl step c) = (read c).or (ds.findSome? say) := by
  induction ds generalizing c with
  | nil => simp
  | cons d ds ih =>
    rw [List.foldl_cons, ih, h, List.findSome?_cons]
    cases read c <;> cases say d <;> simp

end

end StaticContext

end XQuerySyntax

/-! ### The context apart from signatures

An imported module adds signatures and nothing else, and what a declaration does to the rest does not
depend on them. -/

namespace XQuerySyntax.StaticContext

variable {c c' : StaticContext}

/-- The context without its signatures. -/
def unsigned (c : StaticContext) : StaticContext :=
  { c with variableSignatures := [], functionSignatures := [] }

theorem Agrees.unsigned (h : c.Agrees c') : c.unsigned.Agrees c'.unsigned := by
  obtain ⟨b, hb, rfl⟩ := h.exists_bindings
  exact ⟨hb, rfl⟩

/-! ### Imports -/

theorem unsigned_declareAll {σ : Type} {declare : StaticContext → σ → Bool × StaticContext}
    (h : ∀ c x, (declare c x).2.unsigned = c.unsigned) (name : σ → QName) (c : StaticContext) (xs : List σ) :
    (declareAll declare name c xs).2.unsigned = c.unsigned := by
  induction xs generalizing c with
  | nil => rfl
  | cons x xs ih => exact (ih (declare c x).2).trans (h c x)

/-- Taking over signatures changes nothing else. -/
theorem unsigned_importSignatures (c other : StaticContext) (uri : String) :
    (c.importSignatures other uri).2.unsigned = c.unsigned := by
  have hvariable (c : StaticContext) (v : VariableSignature) :
      (c.declareVariable v).2.unsigned = c.unsigned := by
    rw [declareVariable_eq]
    rfl
  have hfunction (c : StaticContext) (f : FunctionSignature) :
      (c.declareFunction f).2.unsigned = c.unsigned := by
    rw [declareFunction_eq]
    rfl
  exact (unsigned_declareAll hfunction _ _ _).trans (unsigned_declareAll hvariable _ _ _)

/-! ### Declarations -/

theorem unsigned_bind (c : StaticContext) (qualifier uri : String) :
    (c.bind qualifier uri).unsigned = c.unsigned.bind qualifier uri := by
  rw [bind_eq, bind_eq]
  rfl

theorem unsigned_bindAll (c : StaticContext) (pairs : List (String × String)) :
    (c.bindAll pairs).unsigned = c.unsigned.bindAll pairs := by
  induction pairs generalizing c with
  | nil => rfl
  | cons p pairs ih => exact (ih (c.bind p.1 p.2)).trans (congrArg (bindAll · pairs) (unsigned_bind c p.1 p.2))

theorem unsigned_claimed (c : StaticContext) (s : Option Setter) :
    (c.claimed s).unsigned = c.unsigned.claimed s := by
  cases s with
  | none => rfl
  | some s =>
    rw [claimed, claimed, claim_eq, claim_eq]
    rfl

theorem unsigned_valued (c : StaticContext) (d : DeclarationKind) :
    (c.valued d).unsigned = (c.unsigned.valued d).unsigned := by cases d <;> rfl

/-- What a declaration does apart from signatures does not depend on signatures. -/
theorem unsigned_declare (c : StaticContext) (d : DeclarationKind) :
    (c.declare d).unsigned = (c.unsigned.declare d).unsigned := by
  rw [declare, unsigned_valued, unsigned_claimed, unsigned_bindAll, declare]

theorem agrees_unsigned_declare (h : c.unsigned.Agrees c'.unsigned) (d : DeclarationKind) :
    (c.declare d).unsigned.Agrees (c'.declare d).unsigned := by
  rw [unsigned_declare c, unsigned_declare c']
  exact (h.declare d).unsigned

theorem agrees_unsigned_bind (h : c.unsigned.Agrees c'.unsigned) (qualifier uri : String) :
    (c.bind qualifier uri).unsigned.Agrees (c'.bind qualifier uri).unsigned := by
  rw [unsigned_bind, unsigned_bind]
  exact h.bind qualifier uri

end XQuerySyntax.StaticContext
