import XQuerySyntax.Tree.Name

/-!
Sequence types: an item type and how often an item may occur. Item types are atomic types, kind
tests on nodes, and tests on functions.
-/

namespace XQuerySyntax

/-- How often an item may occur. -/
inductive Occurrence where
  | exactlyOne
  | zeroOrOne
  | zeroOrMore
  | oneOrMore
  deriving DecidableEq, Repr, Inhabited

/-- The name argument of an element or attribute test. -/
inductive ElementName where
  | name (name : QName)
  | wildcard
  deriving DecidableEq, Repr, Inhabited

/-- The type argument of an element or attribute test. -/
structure ContentType where
  typeName : QName
  nillable : Bool
  deriving DecidableEq, Repr, Inhabited

/-- A test on the kind of a node. -/
inductive KindTest where
  | document (root : Option KindTest)
  | element (name : Option ElementName) (type : Option ContentType)
  | attribute (name : Option ElementName) (type : Option ContentType)
  | schemaElement (name : QName)
  | schemaAttribute (name : QName)
  | processingInstruction (target : Option String)
  | comment
  | text
  | namespaceNode
  | anyKind
  deriving Repr, Inhabited

mutual

/-- A sequence type. -/
inductive SequenceType where
  | mk (itemType : ItemType) (occurrence : Occurrence)

/-- An item type. -/
inductive ItemType where
  /-- The type of the empty sequence, which has no occurrence indicator. -/
  | emptySequence
  | item
  | atomicOrUnion (name : QName)
  | kindTest (test : KindTest)
  | anyFunction
  | functionTest (params : List SequenceType) (returnType : SequenceType)
  | parenthesized (inner : ItemType)

end

instance : Inhabited ItemType := ⟨.item⟩

instance : Inhabited SequenceType := ⟨.mk .item .exactlyOne⟩

namespace SequenceType

/-- The type of the items. -/
def itemType : SequenceType → ItemType
  | mk itemType _ => itemType

/-- How often an item may occur. -/
def occurrence : SequenceType → Occurrence
  | mk _ occurrence => occurrence

/-- Exactly one item. -/
def single (t : ItemType) : SequenceType := mk t .exactlyOne

end SequenceType

/-- The target of a cast: one atomic type, with or without the empty sequence. -/
structure SingleType where
  typeName : QName
  optional : Bool
  deriving DecidableEq, Repr, Inhabited

/-- The direction of a step. -/
inductive Axis where
  | child
  | descendant
  | attribute
  | self
  | descendantOrSelf
  | followingSibling
  | following
  | namespaceAxis
  | parent
  | ancestor
  | precedingSibling
  | preceding
  | ancestorOrSelf
  deriving DecidableEq, Repr, Inhabited

namespace Axis

/-- Every axis with its name. -/
def named : List (String × Axis) :=
  [("child", .child), ("descendant", .descendant), ("attribute", .attribute), ("self", .self),
    ("descendant-or-self", .descendantOrSelf), ("following-sibling", .followingSibling),
    ("following", .following), ("namespace", .namespaceAxis), ("parent", .parent),
    ("ancestor", .ancestor), ("preceding-sibling", .precedingSibling), ("preceding", .preceding),
    ("ancestor-or-self", .ancestorOrSelf)]

/-- The axis of a name. -/
def ofName? (name : String) : Option Axis := named.lookup name

/-- Axes that lead backwards in document order. -/
def isReverse (a : Axis) : Bool :=
  a == parent || a == ancestor || a == precedingSibling || a == preceding || a == ancestorOrSelf

end Axis

/-- The test of a step. -/
inductive NodeTest where
  | name (test : NameTest)
  | kind (test : KindTest)
  deriving Repr, Inhabited

end XQuerySyntax
