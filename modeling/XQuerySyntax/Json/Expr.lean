import XQuerySyntax.Json.FullText
import XQuerySyntax.Tree.Children

/-!
Expressions as JSON. One level of an expression is encoded by a function that is given the encoding
of what lies below; the height of the tree bounds the number of levels.
-/

namespace XQuerySyntax

open Json

/-! ### Constructors -/

/-- A namespace binding as JSON. -/
def NamespaceBinding.toJson (b : NamespaceBinding) : Json :=
  object [("prefix", optional string b.qualifier), ("uri", string b.uri)]

/-- A part of an attribute value as JSON. -/
def AttributeValuePart.toJson {ε : Type} (encode : ε → Json) : AttributeValuePart ε → Json
  | .text value => variant "Text" (string value)
  | .enclosed e => variant "Enclosed" (encode e)

/-- An attribute as JSON. -/
def DirAttribute.toJson {ε : Type} (encode : ε → Json) (a : DirAttribute ε) : Json :=
  object [("name", a.name.toJson), ("value", list (AttributeValuePart.toJson encode) a.value),
    ("offset", number a.offset)]

/-- A part of element content as JSON. -/
def DirContent.toJson {ε : Type} (encode : ε → Json) : DirContent ε → Json
  | .text value => variant "Text" (string value)
  | .literalSection value => variant "CData" (string value)
  | .enclosed e => variant "Enclosed" (encode e)
  | .node e => variant "Node" (encode e)

/-- An element as JSON. -/
def DirElement.toJson {ε : Type} (encode : ε → Json) (e : DirElement ε) : Json :=
  object
    [("name", e.name.toJson), ("attributes", list (DirAttribute.toJson encode) e.attributes),
      ("namespaces", list NamespaceBinding.toJson e.namespaces),
      ("content", list (DirContent.toJson encode) e.content),
      ("self_closing", bool e.selfClosing)]

/-- The name of a computed constructor as JSON. -/
def ComputedName.toJson {ε : Type} (encode : ε → Json) : ComputedName ε → Json
  | .literal name => variant "Literal" name.toJson
  | .expr source => variant "Expr" (encode source)

/-! ### Clauses -/

/-- A kind of windows as JSON. -/
def WindowKind.toJson : WindowKind → Json
  | .tumbling => string "Tumbling"
  | .sliding => string "Sliding"

/-- A place for the empty sequence as JSON. -/
def EmptyOrder.toJson : EmptyOrder → Json
  | .greatest => string "Greatest"
  | .least => string "Least"

/-- The variables of a window condition as JSON. -/
def WindowVars.toJson (v : WindowVars) : Json :=
  object
    [("current", optional QName.toJson v.current), ("positional", optional QName.toJson v.positional),
      ("previous", optional QName.toJson v.previous), ("next", optional QName.toJson v.next)]

/-- A variable that runs over a sequence as JSON. -/
def ForBinding.toJson {ε : Type} (encode : ε → Json) (b : ForBinding ε) : Json :=
  object
    [("var", b.name.toJson), ("type_decl", optional SequenceType.toJson b.typeDecl),
      ("allowing_empty", bool b.allowingEmpty), ("positional", optional QName.toJson b.positional),
      ("score", optional QName.toJson b.score), ("source", encode b.source),
      ("offset", number b.offset)]

/-- A variable bound to a value as JSON. -/
def LetBinding.toJson {ε : Type} (encode : ε → Json) (b : LetBinding ε) : Json :=
  object
    [("var", b.name.toJson), ("type_decl", optional SequenceType.toJson b.typeDecl),
      ("score", bool b.score), ("value", encode b.value), ("offset", number b.offset)]

/-- A window condition as JSON. -/
def WindowCondition.toJson {ε : Type} (encode : ε → Json) (c : WindowCondition ε) : Json :=
  object [("only", bool c.only), ("vars", c.names.toJson), ("when", encode c.condition)]

/-- A grouping key as JSON. -/
def GroupingSpec.toJson {ε : Type} (encode : ε → Json) (g : GroupingSpec ε) : Json :=
  object [("var", g.name.toJson), ("value", optional encode g.value),
    ("collation", optional string g.collation)]

/-- An ordering key as JSON. -/
def OrderSpec.toJson {ε : Type} (encode : ε → Json) (o : OrderSpec ε) : Json :=
  object [("expr", encode o.key), ("descending", bool o.descending),
    ("empty", optional EmptyOrder.toJson o.empty), ("collation", optional string o.collation)]

/-- A clause as JSON. -/
def Clause.toJson {ε : Type} (encode : ε → Json) : Clause ε → Json
  | .forEach bindings => variant "For" (list (ForBinding.toJson encode) bindings)
  | .letBe bindings => variant "Let" (list (LetBinding.toJson encode) bindings)
  | .window kind name typeDecl source start finish =>
    record "Window"
      [("kind", kind.toJson), ("var", name.toJson),
        ("type_decl", optional SequenceType.toJson typeDecl), ("source", encode source),
        ("start", start.toJson encode), ("end", optional (WindowCondition.toJson encode) finish)]
  | .count name => variant "Count" name.toJson
  | .filter condition => variant "Where" (encode condition)

/-- A query of clauses as JSON. -/
def Flwor.toJson {ε : Type} (encode : ε → Json) (q : Flwor ε) : Json :=
  object
    [("clauses", list (Clause.toJson encode) q.clauses),
      ("where_clause", optional encode q.condition),
      ("group_by",
        if q.groupBy.isEmpty then null
        else object [("specs", list (GroupingSpec.toJson encode) q.groupBy)]),
      ("post_group", list (Clause.toJson encode) q.postGroup),
      ("order_by",
        if q.orderBy.isEmpty then null
        else object
          [("stable", bool q.stable), ("specs", list (OrderSpec.toJson encode) q.orderBy)]),
      ("return_expr", encode q.result)]

/-! ### Parts of expressions -/

/-- A sign as JSON. -/
def UnaryOperator.toJson : UnaryOperator → Json
  | .plus => string "Plus"
  | .minus => string "Minus"

/-- A binary operator as JSON. -/
def BinaryOperator.toJson : BinaryOperator → Json
  | .or => string "Or"
  | .and => string "And"
  | .equals => string "Equals"
  | .notEquals => string "NotEquals"
  | .lessThan => string "LessThan"
  | .lessThanOrEqual => string "LessThanOrEqual"
  | .greaterThan => string "GreaterThan"
  | .greaterThanOrEqual => string "GreaterThanOrEqual"
  | .valueEq => string "ValueEq"
  | .valueNe => string "ValueNe"
  | .valueLt => string "ValueLt"
  | .valueLe => string "ValueLe"
  | .valueGt => string "ValueGt"
  | .valueGe => string "ValueGe"
  | .is => string "Is"
  | .precedes => string "Precedes"
  | .follows => string "Follows"
  | .plus => string "Plus"
  | .minus => string "Minus"
  | .multiply => string "Multiply"
  | .divide => string "Divide"
  | .integerDivide => string "IntegerDivide"
  | .modulo => string "Modulo"
  | .union => string "Union"
  | .intersect => string "Intersect"
  | .except => string "Except"

/-- The start of a path as JSON. -/
def PathRoot.toJson : PathRoot → Json
  | .relative => string "Relative"
  | .root => string "Root"
  | .rootDescendants => string "RootDescendants"

/-- A quantifier as JSON. -/
def Quantifier.toJson : Quantifier → Json
  | .some => string "Some"
  | .every => string "Every"

/-- A validation mode as JSON. -/
def ValidationMode.toJson : ValidationMode → Json
  | .lax => string "Lax"
  | .strict => string "Strict"
  | .skip => string "Skip"

/-- A place to insert as JSON. -/
def InsertPosition.toJson : InsertPosition → Json
  | .into => string "Into"
  | .asFirstInto => string "AsFirstInto"
  | .asLastInto => string "AsLastInto"
  | .after => string "After"
  | .before => string "Before"

/-- A parameter as JSON. -/
def Param.toJson (p : Param) : Json :=
  object [("name", p.name.toJson), ("type_decl", optional SequenceType.toJson p.typeDecl)]

/-- An annotation as JSON. -/
def AnnotationDecl.toJson (a : AnnotationDecl) : Json :=
  object [("name", a.name.toJson), ("values", list Literal.toJson a.values)]

/-- A branch of a switch as JSON. -/
def SwitchCase.toJson {ε : Type} (encode : ε → Json) (c : SwitchCase ε) : Json :=
  object [("operands", list encode c.operands), ("result", encode c.result)]

/-- A branch of a switch on types as JSON. -/
def TypeswitchCase.toJson {ε : Type} (encode : ε → Json) (c : TypeswitchCase ε) : Json :=
  object [("var", optional QName.toJson c.name), ("types", list SequenceType.toJson c.types),
    ("result", encode c.result)]

/-- A handler of errors as JSON. -/
def CatchClause.toJson {ε : Type} (encode : ε → Json) (c : CatchClause ε) : Json :=
  object [("tests", list NameTest.toJson c.tests), ("vars", list QName.toJson c.names),
    ("body", encode c.body)]

/-- A variable that runs over a sequence, without position and score, as JSON. -/
def VariableBinding.toJson {ε : Type} (encode : ε → Json) (b : VariableBinding ε) : Json :=
  object [("var", b.name.toJson), ("type_decl", optional SequenceType.toJson b.typeDecl),
    ("source", encode b.value)]

/-- A variable bound to a copy as JSON. -/
def VariableBinding.copyToJson {ε : Type} (encode : ε → Json) (b : VariableBinding ε) : Json :=
  object [("var", b.name.toJson), ("value", encode b.value)]

/-- A variable of a block as JSON. -/
def BlockVarDecl.toJson {ε : Type} (encode : ε → Json) (d : BlockVarDecl ε) : Json :=
  object [("var", d.name.toJson), ("type_decl", optional SequenceType.toJson d.typeDecl),
    ("value", optional encode d.value)]

/-- One level of an expression as JSON. -/
def ExprKind.toJson {ε : Type} (encode : ε → Json) : ExprKind ε → Json
  | .literal value => variant "Literal" value.toJson
  | .contextItem => string "ContextItem"
  | .varRef name => variant "VarRef" name.toJson
  | .sequence items => variant "Sequence" (list encode items)
  | .binary op left right =>
    record "Binary" [("op", op.toJson), ("left", encode left), ("right", encode right)]
  | .range first last => record "Range" [("start", encode first), ("end", encode last)]
  | .unary op operand => record "Unary" [("op", op.toJson), ("operand", encode operand)]
  | .instanceOf expr type =>
    record "InstanceOf" [("expr", encode expr), ("sequence_type", type.toJson)]
  | .treatAs expr type => record "TreatAs" [("expr", encode expr), ("sequence_type", type.toJson)]
  | .castableAs expr type =>
    record "CastableAs" [("expr", encode expr), ("single_type", type.toJson)]
  | .castAs expr type => record "CastAs" [("expr", encode expr), ("single_type", type.toJson)]
  | .path start steps => record "Path" [("root", start.toJson), ("steps", list encode steps)]
  | .step axis nodeTest predicates =>
    record "Step" [("axis", axis.toJson), ("node_test", nodeTest.toJson),
      ("predicates", list encode predicates)]
  | .filter base predicates =>
    record "Filter" [("base", encode base), ("predicates", list encode predicates)]
  | .functionCall name args =>
    record "FunctionCall" [("name", name.toJson), ("args", list encode args)]
  | .argumentPlaceholder => string "ArgumentPlaceholder"
  | .dynamicCall function args =>
    record "DynamicCall" [("function", encode function), ("args", list encode args)]
  | .namedFunctionRef name arity =>
    record "NamedFunctionRef" [("name", name.toJson), ("arity", number arity)]
  | .inlineFunction annotations params returnType body =>
    record "InlineFunction"
      [("annotations", list AnnotationDecl.toJson annotations), ("params", list Param.toJson params),
        ("return_type", optional SequenceType.toJson returnType), ("body", encode body)]
  | .flwor query => variant "Flwor" (query.toJson encode)
  | .quantified quantifier bindings satisfies =>
    record "Quantified"
      [("quantifier", quantifier.toJson), ("bindings", list (VariableBinding.toJson encode) bindings),
        ("satisfies", encode satisfies)]
  | .ifThenElse condition thenExpr elseExpr =>
    record "If" [("condition", encode condition), ("then_expr", encode thenExpr),
      ("else_expr", encode elseExpr)]
  | .switch operand cases default =>
    record "Switch" [("operand", encode operand), ("cases", list (SwitchCase.toJson encode) cases),
      ("default", encode default)]
  | .typeswitch operand cases defaultVar default =>
    record "Typeswitch"
      [("operand", encode operand), ("cases", list (TypeswitchCase.toJson encode) cases),
        ("default_var", optional QName.toJson defaultVar), ("default", encode default)]
  | .tryCatch body catches =>
    record "Try" [("body", encode body), ("catches", list (CatchClause.toJson encode) catches)]
  | .validate mode typeName expr =>
    record "Validate" [("mode", optional ValidationMode.toJson mode),
      ("type_name", optional QName.toJson typeName), ("expr", encode expr)]
  | .extension pragmas expr =>
    record "Extension" [("pragmas", list Pragma.toJson pragmas), ("expr", optional encode expr)]
  | .ordered expr => variant "Ordered" (encode expr)
  | .unordered expr => variant "Unordered" (encode expr)
  | .dirElement element => variant "DirElement" (element.toJson encode)
  | .dirComment text => variant "DirComment" (string text)
  | .dirPi target content =>
    record "DirPi" [("target", string target), ("content", string content)]
  | .compDocument content => variant "CompDocument" (encode content)
  | .compElement name content =>
    record "CompElement" [("name", name.toJson encode), ("content", optional encode content)]
  | .compAttribute name content =>
    record "CompAttribute" [("name", name.toJson encode), ("content", optional encode content)]
  | .compNamespace name uri =>
    record "CompNamespace" [("prefix", name.toJson encode), ("uri", encode uri)]
  | .compText content => variant "CompText" (encode content)
  | .compComment content => variant "CompComment" (encode content)
  | .compPi target content =>
    record "CompPi" [("target", target.toJson encode), ("content", optional encode content)]
  | .ftContains expr selection withoutContent =>
    record "FtContains" [("expr", encode expr), ("selection", selection.toJson encode),
      ("without_content", optional encode withoutContent)]
  | .insert source position target =>
    record "Insert"
      [("source", encode source), ("position", position.toJson), ("target", encode target)]
  | .delete target => record "Delete" [("target", encode target)]
  | .replace valueOf target replacement =>
    record "Replace" [("value_of", bool valueOf), ("target", encode target),
      ("replacement", encode replacement)]
  | .rename target newName =>
    record "Rename" [("target", encode target), ("new_name", encode newName)]
  | .transform bindings modify returnExpr =>
    record "Transform" [("bindings", list (VariableBinding.copyToJson encode) bindings),
      ("modify", encode modify), ("return_expr", encode returnExpr)]
  | .block declarations body =>
    record "Block" [("declarations", list (BlockVarDecl.toJson encode) declarations),
      ("body", list encode body)]
  | .assign name value => record "Assign" [("var", name.toJson), ("value", encode value)]
  | .whileLoop condition body =>
    record "While" [("condition", encode condition), ("body", encode body)]
  | .exit value => variant "Exit" (encode value)
  | .breakLoop => string "BreakLoop"
  | .continueLoop => string "ContinueLoop"

namespace Expr

/-- So many levels of an expression as JSON. -/
def levelsToJson : Nat → Expr → Json
  | 0, _ => null
  | n + 1, e => nodeToJson (e.kind.toJson (levelsToJson n)) e.offset e.module

/-- An expression as JSON. -/
def toJson (e : Expr) : Json := levelsToJson e.height e

end Expr

end XQuerySyntax
