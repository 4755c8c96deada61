import XQuerySyntax.Json.Value
import XQuerySyntax.Tree.SequenceType

/-!
Names and sequence types as JSON. An alternative without parts is its name; an alternative with
parts is an object whose one field is named for it; a record has all its fields, missing values as
null.
-/

namespace XQuerySyntax

open Json

/-- A name as JSON. -/
def QName.toJson (n : QName) : Json :=
  object [("prefix", optional string n.qualifier), ("local_part", string n.localPart),
    ("namespace", optional string n.namespaceUri)]

/-- A name test as JSON. -/
def NameTest.toJson : NameTest → Json
  | .name n => variant "Name" n.toJson
  | .any => string "Any"
  | .inNamespace qualifier uri =>
    record "Namespace" [("prefix", string qualifier), ("namespace", optional string uri)]
  | .localPart n => variant "Local" (string n)

/-- An occurrence indicator as JSON. -/
def Occurrence.toJson : Occurrence → Json
  | .exactlyOne => string "ExactlyOne"
  | .zeroOrOne => string "ZeroOrOne"
  | .zeroOrMore => string "ZeroOrMore"
  | .oneOrMore => string "OneOrMore"

/-- The name argument of a kind test as JSON. -/
def ElementName.toJson : ElementName → Json
  | .name n => variant "Name" n.toJson
  | .wildcard => string "Wildcard"

/-- The type argument of a kind test as JSON. -/
def ContentType.toJson (t : ContentType) : Json :=
  object [("type_name", t.typeName.toJson), ("nillable", bool t.nillable)]

/-- A kind test as JSON. -/
def KindTest.toJson : KindTest → Json
  | .document none => variant "Document" null
  | .document (some root) => variant "Document" root.toJson
  | .element name type =>
    tuple "Element" [optional ElementName.toJson name, optional ContentType.toJson type]
  | .attribute name type =>
    tuple "Attribute" [optional ElementName.toJson name, optional ContentType.toJson type]
  | .schemaElement name => variant "SchemaElement" name.toJson
  | .schemaAttribute name => variant "SchemaAttribute" name.toJson
  | .processingInstruction target => variant "ProcessingInstruction" (optional string target)
  | .comment => string "Comment"
  | .text => string "Text"
  | .namespaceNode => string "NamespaceNode"
  | .anyKind => string "AnyKind"

mutual

/-- A sequence type as JSON. -/
def SequenceType.toJson : SequenceType → Json
  | .mk itemType occurrence =>
    object [("item_type", itemType.toJson), ("occurrence", occurrence.toJson)]

/-- An item type as JSON. -/
def ItemType.toJson : ItemType → Json
  | .emptySequence => string "EmptySequence"
  | .item => string "Item"
  | .atomicOrUnion name => variant "AtomicOrUnion" name.toJson
  | .kindTest test => variant "KindTest" test.toJson
  | .anyFunction => string "AnyFunction"
  | .functionTest params returnType =>
    record "FunctionTest"
      [("params", array (SequenceType.listToJson params)), ("return_type", returnType.toJson)]
  | .parenthesized inner => variant "Parenthesized" inner.toJson

/-- Sequence types as JSON, one after the other. -/
def SequenceType.listToJson : List SequenceType → List Json
  | [] => []
  | t :: ts => t.toJson :: SequenceType.listToJson ts

end

/-- The target of a cast as JSON. -/
def SingleType.toJson (t : SingleType) : Json :=
  object [("type_name", t.typeName.toJson), ("optional", bool t.optional)]

/-- An axis as JSON. -/
def Axis.toJson : Axis → Json
  | .child => string "Child"
  | .descendant => string "Descendant"
  | .attribute => string "Attribute"
  | .self => string "SelfAxis"
  | .descendantOrSelf => string "DescendantOrSelf"
  | .followingSibling => string "FollowingSibling"
  | .following => string "Following"
  | .namespaceAxis => string "Namespace"
  | .parent => string "Parent"
  | .ancestor => string "Ancestor"
  | .precedingSibling => string "PrecedingSibling"
  | .preceding => string "Preceding"
  | .ancestorOrSelf => string "AncestorOrSelf"

/-- A node test as JSON. -/
def NodeTest.toJson : NodeTest → Json
  | .name test => variant "Name" test.toJson
  | .kind test => variant "Kind" test.toJson

end XQuerySyntax
