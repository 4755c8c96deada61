import XQuerySyntax.Json.Expr

/-!
Modules as JSON.
-/

namespace XQuerySyntax

open Json

/-- A policy for boundary whitespace as JSON. -/
def BoundarySpace.toJson : BoundarySpace → Json
  | .preserve => string "Preserve"
  | .strip => string "Strip"

/-- A construction mode as JSON. -/
def ConstructionMode.toJson : ConstructionMode → Json
  | .preserve => string "Preserve"
  | .strip => string "Strip"

/-- An ordering mode as JSON. -/
def OrderingMode.toJson : OrderingMode → Json
  | .ordered => string "Ordered"
  | .unordered => string "Unordered"

/-- A kind of default namespaces as JSON. -/
def DefaultNamespaceKind.toJson : DefaultNamespaceKind → Json
  | .element => string "Element"
  | .function => string "Function"

/-- A property of decimal formats as JSON. -/
def DecimalFormatProperty.toJson : DecimalFormatProperty → Json
  | .decimalSeparator => string "DecimalSeparator"
  | .groupingSeparator => string "GroupingSeparator"
  | .infinity => string "Infinity"
  | .minusSign => string "MinusSign"
  | .nan => string "NaN"
  | .percent => string "Percent"
  | .perMille => string "PerMille"
  | .zeroDigit => string "ZeroDigit"
  | .digit => string "Digit"
  | .patternSeparator => string "PatternSeparator"
  | .exponentSeparator => string "ExponentSeparator"

/-- A decimal format as JSON. -/
def DecimalFormat.toJson (format : DecimalFormat) : Json :=
  list (fun (property, value) => array [property.toJson, string value]) format

/-- A kind of functions as JSON. -/
def FunctionKind.toJson : FunctionKind → Json
  | .simple => string "Simple"
  | .updating => string "Updating"
  | .sequential => string "Sequential"

/-- A version declaration as JSON. -/
def VersionDecl.toJson (d : VersionDecl) : Json :=
  object [("version", optional string d.version), ("encoding", optional string d.encoding),
    ("offset", number d.offset)]

/-- A schema import as JSON. -/
def SchemaImport.toJson (i : SchemaImport) : Json :=
  object
    [("prefix", optional string i.qualifier),
      ("default_element_namespace", bool i.defaultElementNamespace),
      ("namespace", string i.targetNamespace), ("locations", list string i.locations)]

/-- A module import as JSON. -/
def ModuleImport.toJson (i : ModuleImport) : Json :=
  object [("prefix", optional string i.qualifier), ("namespace", string i.targetNamespace),
    ("locations", list string i.locations)]

/-- A variable declaration as JSON. -/
def VariableDecl.toJson (d : VariableDecl) : Json :=
  object
    [("annotations", list AnnotationDecl.toJson d.annotations), ("name", d.name.toJson),
      ("type_decl", optional SequenceType.toJson d.typeDecl),
      ("value", optional Expr.toJson d.value), ("external", bool d.isExternal)]

/-- A function declaration as JSON. -/
def FunctionDecl.toJson (d : FunctionDecl) : Json :=
  object
    [("annotations", list AnnotationDecl.toJson d.annotations), ("kind", d.kind.toJson),
      ("name", d.name.toJson), ("params", list Param.toJson d.params),
      ("return_type", optional SequenceType.toJson d.returnType),
      ("body", optional Expr.toJson d.body)]

/-- What a prolog declares as JSON. -/
def DeclarationKind.toJson : DeclarationKind → Json
  | .boundarySpace policy => variant "BoundarySpace" policy.toJson
  | .defaultCollation uri => variant "DefaultCollation" (string uri)
  | .baseUri uri => variant "BaseUri" (string uri)
  | .construction mode => variant "Construction" mode.toJson
  | .ordering mode => variant "Ordering" mode.toJson
  | .emptyOrder order => variant "EmptyOrder" order.toJson
  | .copyNamespaces preserve inherit =>
    record "CopyNamespaces" [("preserve", bool preserve), ("inherit", bool inherit)]
  | .decimalFormat name properties =>
    record "DecimalFormat"
      [("name", optional QName.toJson name), ("properties", DecimalFormat.toJson properties)]
  | .namespaceDecl qualifier uri =>
    record "Namespace" [("prefix", string qualifier), ("uri", string uri)]
  | .defaultNamespace kind uri =>
    record "DefaultNamespace" [("kind", kind.toJson), ("uri", string uri)]
  | .schemaImport schema => variant "SchemaImport" schema.toJson
  | .moduleImport library => variant "ModuleImport" library.toJson
  | .contextItem itemType value isExternal =>
    record "ContextItem"
      [("item_type", optional SequenceType.toJson itemType), ("value", optional Expr.toJson value),
        ("external", bool isExternal)]
  | .variableDecl decl => variant "Variable" decl.toJson
  | .functionDecl decl => variant "Function" decl.toJson
  | .option name value => record "Option" [("name", name.toJson), ("value", string value)]
  | .ftOption options => variant "FtOption" options.toJson
  | .revalidation mode => variant "Revalidation" mode.toJson

/-- A declaration as JSON. -/
def Declaration.toJson (d : Declaration) : Json :=
  object [("kind", d.kind.toJson), ("offset", number d.offset)]

/-- A prolog as JSON. -/
def Prolog.toJson (p : Prolog) : Json :=
  object [("version", optional VersionDecl.toJson p.version),
    ("declarations", list Declaration.toJson p.declarations)]

/-- A module as JSON. -/
def Module.toJson : Module → Json
  | .main prolog body => record "Main" [("prolog", prolog.toJson), ("body", body.toJson)]
  | .library qualifier uri prolog =>
    record "Library" [("prefix", string qualifier), ("namespace", string uri),
      ("prolog", prolog.toJson)]

end XQuerySyntax
