import XQuerySyntax.Static.Table
import XQuerySyntax.Tree.Module

/-!
The static context of a module: the namespaces in scope, the settings of the prolog, and the
signatures of the global declarations. Every declaration of a kind that must be unique is kept the
first time only, and the operation says whether it was the first.
-/

namespace XQuerySyntax

/-! ### Namespaces with a fixed meaning -/

namespace Namespaces

def xml : String := "http://www.w3.org/XML/1998/namespace"

def xmlns : String := "http://www.w3.org/2000/xmlns/"

def schema : String := "http://www.w3.org/2001/XMLSchema"

def schemaInstance : String := "http://www.w3.org/2001/XMLSchema-instance"

def functions : String := "http://www.w3.org/2005/xpath-functions"

def localFunctions : String := "http://www.w3.org/2005/xquery-local-functions"

def errors : String := "http://www.w3.org/2005/xqt-errors"

/-- The namespace of annotations without a qualifier. -/
def annotations : String := "http://www.w3.org/2012/xquery"

/-- The qualifiers that every module knows. -/
def predeclared : List (String × String) :=
  [("xml", xml), ("xs", schema), ("xsi", schemaInstance), ("fn", functions),
    ("local", localFunctions), ("err", errors)]

/-- Namespaces in which no function may be declared. -/
def isReservedForFunctions (uri : String) : Bool :=
  uri == xml || uri == schema || uri == schemaInstance || uri == functions

end Namespaces

/-- Settings that a prolog may give once. -/
inductive Setter where
  | boundarySpace
  | defaultCollation
  | baseUri
  | construction
  | ordering
  | emptyOrder
  | copyNamespaces
  | defaultElementNamespace
  | defaultFunctionNamespace
  | contextItem
  | revalidation
  deriving DecidableEq, Repr, Inhabited

namespace Setter

/-- Every setter, in a fixed order. -/
def all : List Setter :=
  [boundarySpace, defaultCollation, baseUri, construction, ordering, emptyOrder, copyNamespaces,
    defaultElementNamespace, defaultFunctionNamespace, contextItem, revalidation]

/-- The name of a setter in messages. -/
def text : Setter → String
  | boundarySpace => "BoundarySpace"
  | defaultCollation => "DefaultCollation"
  | baseUri => "BaseUri"
  | construction => "Construction"
  | ordering => "Ordering"
  | emptyOrder => "EmptyOrder"
  | copyNamespaces => "CopyNamespaces"
  | defaultElementNamespace => "DefaultElementNamespace"
  | defaultFunctionNamespace => "DefaultFunctionNamespace"
  | contextItem => "ContextItem"
  | revalidation => "Revalidation"

end Setter

/-- What is known of a variable from outside its declaration. -/
structure VariableSignature where
  name : QName
  typeDecl : Option SequenceType
  isExternal : Bool
  isPublic : Bool

/-- What is known of a function from outside its declaration. -/
structure FunctionSignature where
  name : QName
  params : List (Option SequenceType)
  returnType : Option SequenceType
  kind : FunctionKind
  isExternal : Bool
  isPublic : Bool

/-- The number of parameters. -/
def FunctionSignature.arity (f : FunctionSignature) : Nat := f.params.length

/-- The static context. The empty qualifier holds the default element namespace. Bindings made
while a frame is open are undone when it is closed: a frame holds, latest first, what each of them
replaced. -/
structure StaticContext where
  bindings : Table String String
  frames : List (List (String × Option String))
  functionNamespace : String
  boundarySpace : BoundarySpace
  construction : ConstructionMode
  ordering : OrderingMode
  emptyOrder : EmptyOrder
  copyNamespacesPreserve : Bool
  copyNamespacesInherit : Bool
  defaultCollation : Option String
  baseUri : Option String
  revalidation : Option ValidationMode
  contextItemType : Option SequenceType
  ftOptions : Option FtMatchOptions
  declared : List Setter
  options : Table ExpandedName String
  decimalFormats : Table (Option ExpandedName) DecimalFormat
  variableSignatures : List VariableSignature
  functionSignatures : List FunctionSignature
  moduleImports : Table String (List String)
  schemaImports : Table String (List String)

namespace StaticContext

/-- The context before any declaration. -/
def ofConfig (config : Config) : StaticContext where
  bindings := config.namespaces.foldl (fun t p => t.put p.1 p.2) Namespaces.predeclared
  frames := []
  functionNamespace := Namespaces.functions
  boundarySpace := config.boundarySpace
  construction := .preserve
  ordering := .ordered
  emptyOrder := .least
  copyNamespacesPreserve := true
  copyNamespacesInherit := true
  defaultCollation := none
  baseUri := config.sourceUri
  revalidation := none
  contextItemType := none
  ftOptions := none
  declared := []
  options := []
  decimalFormats := []
  variableSignatures := []
  functionSignatures := []
  moduleImports := []
  schemaImports := []

instance : Inhabited StaticContext := ⟨ofConfig .standard⟩

/-! ### Namespaces -/

/-- The namespace of a qualifier; an empty namespace is none. -/
def resolve? (c : StaticContext) (qualifier : String) : Option String :=
  (c.bindings.get? qualifier).filter (· ≠ "")

/-- The namespace of element and type names without a qualifier. -/
def elementNamespace? (c : StaticContext) : Option String := c.resolve? ""

/-- The namespace of function names without a qualifier. -/
def functionNamespace? (c : StaticContext) : Option String :=
  if c.functionNamespace = "" then none else some c.functionNamespace

/-- Binds a qualifier, or the default element namespace for the empty one. Binding a qualifier to
the empty namespace takes it out of scope. -/
def bind (c : StaticContext) (qualifier uri : String) : StaticContext :=
  let old := c.bindings.get? qualifier
  let bindings :=
    if uri = "" ∧ qualifier ≠ "" then c.bindings.erase qualifier else c.bindings.put qualifier uri
  match c.frames with
  | [] => { c with bindings }
  | frame :: frames => { c with bindings, frames := ((qualifier, old) :: frame) :: frames }

/-- Opens a frame. -/
def pushFrame (c : StaticContext) : StaticContext := { c with frames := [] :: c.frames }

/-- Closes the innermost frame and undoes its bindings. -/
def popFrame (c : StaticContext) : StaticContext :=
  match c.frames with
  | [] => c
  | frame :: frames =>
    -- Latest first, so a qualifier bound twice ends with what it had at the start.
    { c with bindings := frame.foldl (fun t p => t.set p.1 p.2) c.bindings, frames }

@[simp]
theorem popFrame_pushFrame (c : StaticContext) : c.pushFrame.popFrame = c := rfl

/-- The number of open frames. -/
def frameDepth (c : StaticContext) : Nat := c.frames.length

/-- The qualifiers in scope with their namespaces. -/
def inScope (c : StaticContext) : List (String × String) :=
  c.bindings.filter fun p => p.1 ≠ ""

/-! ### Settings -/

/-- Whether a setting has been given. -/
def isDeclared (c : StaticContext) (s : Setter) : Bool := c.declared.contains s

/-- Marks a setting as given, and says whether it is the first time. -/
def claim (c : StaticContext) (s : Setter) : Bool × StaticContext :=
  if c.isDeclared s then (false, c) else (true, { c with declared := c.declared ++ [s] })

/-- Sets an option. -/
def setOption (c : StaticContext) (name : ExpandedName) (value : String) : StaticContext :=
  { c with options := c.options.put name value }

/-- Adds a decimal format, the default one if it has no name, and says whether it is new. -/
def addDecimalFormat (c : StaticContext) (name : Option ExpandedName) (format : DecimalFormat) :
    Bool × StaticContext :=
  if c.decimalFormats.has name then (false, c)
  else (true, { c with decimalFormats := c.decimalFormats.put name format })

/-! ### Declarations -/

/-- The variable of a name. -/
def findVariable? (c : StaticContext) (name : ExpandedName) : Option VariableSignature :=
  c.variableSignatures.find? fun v => v.name.expanded == name

/-- The function of a name and a number of parameters. -/
def findFunction? (c : StaticContext) (name : ExpandedName) (arity : Nat) : Option FunctionSignature :=
  c.functionSignatures.find? fun f => f.name.expanded == name && f.arity == arity

/-- Adds a variable, and says whether its name is new. -/
def declareVariable (c : StaticContext) (v : VariableSignature) : Bool × StaticContext :=
  if (c.findVariable? v.name.expanded).isSome then (false, c)
  else (true, { c with variableSignatures := c.variableSignatures ++ [v] })

/-- Adds a function, and says whether its name and number of parameters are new. -/
def declareFunction (c : StaticContext) (f : FunctionSignature) : Bool × StaticContext :=
  if (c.findFunction? f.name.expanded f.arity).isSome then (false, c)
  else (true, { c with functionSignatures := c.functionSignatures ++ [f] })

/-- Adds the import of a module namespace, and says whether it is new. -/
def addModuleImport (c : StaticContext) (uri : String) (locations : List String) :
    Bool × StaticContext :=
  if c.moduleImports.has uri then (false, c)
  else (true, { c with moduleImports := c.moduleImports.put uri locations })

/-- Adds the import of a schema namespace, and says whether it is new. -/
def addSchemaImport (c : StaticContext) (uri : String) (locations : List String) :
    Bool × StaticContext :=
  if c.schemaImports.has uri then (false, c)
  else (true, { c with schemaImports := c.schemaImports.put uri locations })

/-- Adds declarations one after the other, and collects the names that were not new. -/
def declareAll {σ : Type} (declare : StaticContext → σ → Bool × StaticContext) (name : σ → QName)
    (c : StaticContext) : List σ → List QName × StaticContext
  | [] => ([], c)
  | s :: rest =>
    let (isNew, c₁) := declare c s
    let (clashes, c₂) := declareAll declare name c₁ rest
    (if isNew then clashes else name s :: clashes, c₂)

/-- Takes over the public variables and functions of a namespace from another context. The names
that clash with declarations already there are left as they are and returned, variables first. -/
def importSignatures (c other : StaticContext) (uri : String) : List QName × StaticContext :=
  let visible (name : QName) (isPublic : Bool) : Bool := isPublic && name.namespaceUri == some uri
  let (clashing, c₁) := declareAll declareVariable VariableSignature.name c
    (other.variableSignatures.filter fun v => visible v.name v.isPublic)
  let (clashing', c₂) := declareAll declareFunction FunctionSignature.name c₁
    (other.functionSignatures.filter fun f => visible f.name f.isPublic)
  (clashing ++ clashing', c₂)

end StaticContext

end XQuerySyntax
