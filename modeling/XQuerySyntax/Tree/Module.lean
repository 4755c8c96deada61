import XQuerySyntax.Config
import XQuerySyntax.Tree.Expr

/-!
Modules. A main module is a prolog and a body; a library module is a prolog of declarations in the
namespace of the module. Declarations are kept in source order.
-/

namespace XQuerySyntax

/-- Whether constructed nodes keep their types. -/
inductive ConstructionMode where
  | preserve
  | strip
  deriving DecidableEq, Repr, Inhabited

/-- Whether document order matters. -/
inductive OrderingMode where
  | ordered
  | unordered
  deriving DecidableEq, Repr, Inhabited

/-- The two kinds of names that a default namespace applies to. -/
inductive DefaultNamespaceKind where
  | element
  | function
  deriving DecidableEq, Repr, Inhabited

/-- The properties of a decimal format. -/
inductive DecimalFormatProperty where
  | decimalSeparator
  | groupingSeparator
  | infinity
  | minusSign
  | nan
  | percent
  | perMille
  | zeroDigit
  | digit
  | patternSeparator
  | exponentSeparator
  deriving DecidableEq, Repr, Inhabited

namespace DecimalFormatProperty

/-- Every property with its name. -/
def named : List (String × DecimalFormatProperty) :=
  [("decimal-separator", decimalSeparator), ("grouping-separator", groupingSeparator),
    ("infinity", infinity), ("minus-sign", minusSign), ("NaN", nan), ("percent", percent),
    ("per-mille", perMille), ("zero-digit", zeroDigit), ("digit", digit),
    ("pattern-separator", patternSeparator), ("exponent-separator", exponentSeparator)]

/-- The property of a name. -/
def ofName? (name : String) : Option DecimalFormatProperty := named.lookup name

/-- Properties whose value is a single character. -/
def isSingleChar (p : DecimalFormatProperty) : Bool :=
  !(p == infinity || p == nan)

end DecimalFormatProperty

/-- The properties of a decimal format with their values, in the order given. -/
abbrev DecimalFormat := List (DecimalFormatProperty × String)

/-- What a function may do. -/
inductive FunctionKind where
  | simple
  | updating
  | sequential
  deriving DecidableEq, Repr, Inhabited

/-- The version and the encoding of a module. -/
structure VersionDecl where
  version : Option String
  encoding : Option String
  offset : Nat
  deriving DecidableEq, Repr, Inhabited

/-- The import of a schema. -/
structure SchemaImport where
  qualifier : Option String
  defaultElementNamespace : Bool
  targetNamespace : String
  locations : List String
  deriving DecidableEq, Repr, Inhabited

/-- The import of a library module. -/
structure ModuleImport where
  qualifier : Option String
  targetNamespace : String
  locations : List String
  deriving DecidableEq, Repr, Inhabited

/-- The declaration of a global variable. -/
structure VariableDecl where
  annotations : List AnnotationDecl
  name : QName
  typeDecl : Option SequenceType
  value : Option Expr
  isExternal : Bool
  deriving Inhabited

/-- The declaration of a function; an external one has no body. -/
structure FunctionDecl where
  annotations : List AnnotationDecl
  kind : FunctionKind
  name : QName
  params : List Param
  returnType : Option SequenceType
  body : Option Expr
  deriving Inhabited

/-- The number of parameters. -/
def FunctionDecl.arity (f : FunctionDecl) : Nat := f.params.length

/-- What a prolog may declare. -/
inductive DeclarationKind where
  | boundarySpace (policy : BoundarySpace)
  | defaultCollation (uri : String)
  | baseUri (uri : String)
  | construction (mode : ConstructionMode)
  | ordering (mode : OrderingMode)
  | emptyOrder (order : EmptyOrder)
  | copyNamespaces (preserve inherit : Bool)
  | decimalFormat (name : Option QName) (properties : DecimalFormat)
  | namespaceDecl (qualifier uri : String)
  | defaultNamespace (kind : DefaultNamespaceKind) (uri : String)
  | schemaImport (schema : SchemaImport)
  | moduleImport (library : ModuleImport)
  | contextItem (itemType : Option SequenceType) (value : Option Expr) (isExternal : Bool)
  | variableDecl (decl : VariableDecl)
  | functionDecl (decl : FunctionDecl)
  | option (name : QName) (value : String)
  | ftOption (options : FtMatchOptions)
  | revalidation (mode : ValidationMode)

/-- A declaration and where it begins. -/
structure Declaration where
  kind : DeclarationKind
  offset : Nat

/-- The part of a module in front of its body. -/
structure Prolog where
  version : Option VersionDecl
  declarations : List Declaration

namespace Prolog

/-- The declared functions, in source order. -/
def functionDecls (p : Prolog) : List FunctionDecl :=
  p.declarations.filterMap fun d =>
    match d.kind with
    | .functionDecl f => some f
    | _ => none

/-- The declared variables, in source order. -/
def variableDecls (p : Prolog) : List VariableDecl :=
  p.declarations.filterMap fun d =>
    match d.kind with
    | .variableDecl v => some v
    | _ => none

end Prolog

/-- A module. -/
inductive Module where
  | main (prolog : Prolog) (body : Expr)
  | library (qualifier targetNamespace : String) (prolog : Prolog)

namespace Module

/-- The declarations. -/
def prolog : Module → Prolog
  | main prolog _ => prolog
  | library _ _ prolog => prolog

/-- The body of a main module. -/
def body? : Module → Option Expr
  | main _ body => some body
  | library .. => none

/-- The namespace of a library module. -/
def targetNamespace? : Module → Option String
  | main .. => none
  | library _ uri _ => some uri

end Module

end XQuerySyntax
