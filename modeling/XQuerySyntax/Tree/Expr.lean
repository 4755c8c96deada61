import XQuerySyntax.Tree.Flwor
import XQuerySyntax.Tree.FullText
import XQuerySyntax.Tree.Name

/-!
Expressions. A node is the form of an expression together with the byte offset where it begins (for
an operator, where the operator stands) and the module that it is written in. The forms are given
over any type of nodes; the tree is the fixed point.
-/

namespace XQuerySyntax

/-! ### Elements and computed names

The type of the expressions inside is a parameter. -/

/-- A namespace bound in a start tag; the default one has no qualifier. -/
structure NamespaceBinding where
  qualifier : Option String
  uri : String
  deriving DecidableEq, Repr, Inhabited

/-- A part of an attribute value. -/
inductive AttributeValuePart (ε : Type) where
  | text (text : String)
  | enclosed (expr : ε)
  deriving DecidableEq, Repr

/-- An attribute written as markup. -/
structure DirAttribute (ε : Type) where
  name : QName
  value : List (AttributeValuePart ε)
  offset : Nat
  deriving DecidableEq, Repr, Inhabited

/-- A part of element content. -/
inductive DirContent (ε : Type) where
  | text (text : String)
  | literalSection (text : String)
  | enclosed (expr : ε)
  /-- A nested element, comment or processing instruction. -/
  | node (expr : ε)
  deriving DecidableEq, Repr

/-- An element written as markup. Attributes that bind namespaces stand apart from the others. -/
structure DirElement (ε : Type) where
  name : QName
  attributes : List (DirAttribute ε)
  namespaces : List NamespaceBinding
  content : List (DirContent ε)
  selfClosing : Bool
  deriving DecidableEq, Repr, Inhabited

/-- The name of a computed constructor. -/
inductive ComputedName (ε : Type) where
  | literal (name : QName)
  | expr (expr : ε)
  deriving DecidableEq, Repr

/-! ### Expressions -/

/-- The sign in front of an operand. -/
inductive UnaryOperator where
  | plus
  | minus
  deriving DecidableEq, Repr, Inhabited

/-- The binary operators other than ranges and type operators. -/
inductive BinaryOperator where
  | or
  | and
  | equals
  | notEquals
  | lessThan
  | lessThanOrEqual
  | greaterThan
  | greaterThanOrEqual
  | valueEq
  | valueNe
  | valueLt
  | valueLe
  | valueGt
  | valueGe
  | is
  | precedes
  | follows
  | plus
  | minus
  | multiply
  | divide
  | integerDivide
  | modulo
  | union
  | intersect
  | except
  deriving DecidableEq, Repr, Inhabited

/-- Where a path begins. -/
inductive PathRoot where
  /-- At the context item. -/
  | relative
  /-- At the root. -/
  | root
  /-- At the root, with a first step to all descendants. -/
  | rootDescendants
  deriving DecidableEq, Repr, Inhabited

/-- Whether one or all bindings have to satisfy a condition. -/
inductive Quantifier where
  | some
  | every
  deriving DecidableEq, Repr, Inhabited

/-- How a tree is validated. -/
inductive ValidationMode where
  | lax
  | strict
  | skip
  deriving DecidableEq, Repr, Inhabited

/-- Where a node is inserted. -/
inductive InsertPosition where
  | into
  | asFirstInto
  | asLastInto
  | after
  | before
  deriving DecidableEq, Repr, Inhabited

/-- A parameter of a function. -/
structure Param where
  name : QName
  typeDecl : Option SequenceType
  deriving Inhabited

/-- An annotation of a function or a variable. -/
structure AnnotationDecl where
  name : QName
  values : List Literal
  deriving DecidableEq, Repr, Inhabited

/-- One branch of a switch. -/
structure SwitchCase (ε : Type) where
  operands : List ε
  result : ε

/-- One branch of a switch on types; several types are alternatives. -/
structure TypeswitchCase (ε : Type) where
  name : Option QName
  types : List SequenceType
  result : ε

/-- A handler of errors. The variables are those of the older form with up to three of them. -/
structure CatchClause (ε : Type) where
  tests : List NameTest
  names : List QName
  body : ε

/-- A variable bound to an expression, with a type where the construct allows one. -/
structure VariableBinding (ε : Type) where
  name : QName
  typeDecl : Option SequenceType
  value : ε

/-- A variable of a block. -/
structure BlockVarDecl (ε : Type) where
  name : QName
  typeDecl : Option SequenceType
  value : Option ε

/-- The forms of expressions. -/
inductive ExprKind (ε : Type) where
  | literal (value : Literal)
  | contextItem
  | varRef (name : QName)
  /-- Expressions with commas between them; no expression at all is the empty sequence. -/
  | sequence (items : List ε)
  | binary (op : BinaryOperator) (left right : ε)
  | range (first last : ε)
  | unary (op : UnaryOperator) (operand : ε)
  | instanceOf (expr : ε) (sequenceType : SequenceType)
  | treatAs (expr : ε) (sequenceType : SequenceType)
  | castableAs (expr : ε) (singleType : SingleType)
  | castAs (expr : ε) (singleType : SingleType)
  /-- Steps and filter expressions in the order of evaluation. -/
  | path (start : PathRoot) (steps : List ε)
  | step (axis : Axis) (nodeTest : NodeTest) (predicates : List ε)
  | filter (base : ε) (predicates : List ε)
  | functionCall (name : QName) (args : List ε)
  /-- An argument left open. -/
  | argumentPlaceholder
  | dynamicCall (function : ε) (args : List ε)
  | namedFunctionRef (name : QName) (arity : Nat)
  | inlineFunction (annotations : List AnnotationDecl) (params : List Param)
      (returnType : Option SequenceType) (body : ε)
  | flwor (query : Flwor ε)
  | quantified (quantifier : Quantifier) (bindings : List (VariableBinding ε)) (satisfies : ε)
  | ifThenElse (condition thenExpr elseExpr : ε)
  | switch (operand : ε) (cases : List (SwitchCase ε)) (default : ε)
  | typeswitch (operand : ε) (cases : List (TypeswitchCase ε)) (defaultVar : Option QName)
      (default : ε)
  | tryCatch (body : ε) (catches : List (CatchClause ε))
  | validate (mode : Option ValidationMode) (typeName : Option QName) (expr : ε)
  | extension (pragmas : List Pragma) (expr : Option ε)
  | ordered (expr : ε)
  | unordered (expr : ε)
  | dirElement (element : DirElement ε)
  | dirComment (text : String)
  | dirPi (target content : String)
  | compDocument (content : ε)
  | compElement (name : ComputedName ε) (content : Option ε)
  | compAttribute (name : ComputedName ε) (content : Option ε)
  | compNamespace (name : ComputedName ε) (uri : ε)
  | compText (content : ε)
  | compComment (content : ε)
  | compPi (target : ComputedName ε) (content : Option ε)
  | ftContains (expr : ε) (selection : FtSelection ε) (withoutContent : Option ε)
  | insert (source : ε) (position : InsertPosition) (target : ε)
  | delete (target : ε)
  | replace (valueOf : Bool) (target replacement : ε)
  | rename (target newName : ε)
  | transform (bindings : List (VariableBinding ε)) (modify returnExpr : ε)
  | block (declarations : List (BlockVarDecl ε)) (body : List ε)
  | assign (name : QName) (value : ε)
  | whileLoop (condition body : ε)
  | exit (value : ε)
  | breakLoop
  | continueLoop

/-- A node of the syntax tree. -/
inductive Expr where
  | mk (kind : ExprKind Expr) (offset : Nat) (module : ModuleId)

namespace Expr

instance : Inhabited Expr := ⟨mk .contextItem 0 .main⟩

/-- The form of the expression. -/
def kind : Expr → ExprKind Expr
  | mk kind _ _ => kind

/-- Where the expression begins, or where its operator stands. -/
def offset : Expr → Nat
  | mk _ offset _ => offset

/-- The module that the expression is written in. -/
def module : Expr → ModuleId
  | mk _ _ module => module

/-- Whether the expression itself changes a tree. -/
def isUpdating (e : Expr) : Bool :=
  match e.kind with
  | .insert .. | .delete .. | .replace .. | .rename .. => true
  | _ => false

end Expr

end XQuerySyntax
