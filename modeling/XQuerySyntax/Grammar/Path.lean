import XQuerySyntax.Grammar.Constructor
import XQuerySyntax.Grammar.Function

/-!
Paths, steps and primary expressions. Abbreviations of steps are written out in the tree. A path of
one step that is not an axis step is that step.
-/

namespace XQuerySyntax.Grammar

open XQuerySyntax.Parser

/-- Names that never begin a call without a qualifier, because in front of a parenthesis they begin
a kind test or a keyword expression. -/
def reservedFunctionNames : List String :=
  ["attribute", "comment", "document-node", "element", "empty-sequence", "function", "if", "item",
    "namespace-node", "node", "processing-instruction", "schema-attribute", "schema-element",
    "switch", "text", "typeswitch"]

/-- Whether a name never begins a call. -/
def isReservedFunctionName (name : LexicalName) : Bool :=
  name.qualifier.isNone && reservedFunctionNames.contains name.localPart

/-- The default namespace of a name test on an axis. -/
def nameTestNamespace (axis : Axis) : Parser (Option String) := do
  if axis = .attribute ∨ axis = .namespaceAxis then return none
  consult (·.elementNamespace?)

/-- A kind test or a name test. -/
def nodeTest (axis : Axis) : Parser NodeTest := do
  if let some test ← kindTest then
    return .kind test
  match ← nameTest (← nameTestNamespace axis) with
  | some test => return .name test
  | none => unexpected "a node test"

/-- The axis of a kind test that stands alone. -/
def kindTestAxis : KindTest → Axis
  | .attribute .. | .schemaAttribute _ => .attribute
  | .namespaceNode => .namespaceAxis
  | _ => .child

/-- The axis and the test of a step, and where it begins. -/
def stepTest : Parser (Option (Axis × NodeTest × Nat)) := do
  let begin ← nextOffset
  if ← eat Terminal.axis then
    let offset ← start
    let name ← capturedName 0
    match Axis.ofName? name with
    | some axis => return some (axis, ← nodeTest axis, offset)
    | none => fatal .malformed offset ("unknown axis '" ++ name ++ "'")
  -- The abbreviations of an axis and of a whole step.
  if ← eat Terminal.abbrevAttribute then
    let offset ← start
    return some (.attribute, ← nodeTest .attribute, offset)
  if ← eat Terminal.parentStep then
    return some (.parent, .kind .anyKind, ← start)
  -- A kind test looks like the name of an element up to its parenthesis.
  if let some test ← kindTest then
    return some (kindTestAxis test, .kind test, begin)
  if let some test ← nameTest (← nameTestNamespace .child) then
    return some (.child, .name test, begin)
  return none

/-- The step that stands for the second slash of a double one. -/
def descendantStep (offset : Nat) : Parser Expr :=
  node (.step .descendantOrSelf (.kind .anyKind) []) offset

/-- An expression with its predicates, if it has any. -/
def filtered (base : Expr) (predicates : List Expr) : Parser Expr :=
  match predicates with
  | [] => return base
  | _ => node (.filter base predicates) base.offset

/-- A literal, if one comes next. -/
def literal? : Parser (Option Expr) := do
  if ← eat Terminal.numericLiteral then
    let offset ← start
    let value ← capturedNumber? 0
    return some (← node (.literal (value.getD (.integer 0))) offset)
  if ← eat Terminal.stringLiteral then
    let offset ← start
    return some (← node (.literal (.string (← capturedString 0))) offset)
  return none

/-- A reference to a function by name and number of parameters, behind its match. -/
def namedFunctionRef : Parser Expr := do
  let offset ← start
  let lexical ← capturedQualifiedName 0
  match ← capturedNumber? 1 with
  | some (.integer arity) =>
    let name ← functionName lexical offset
    node (.namedFunctionRef name arity) offset
  | _ => fatal .malformed offset "function arity must be a non-negative integer"

variable (single : Parser Expr)

/-- A predicate behind its opening bracket. -/
def predicate : Parser Expr := do
  let e ← expr single
  expect Terminal.predicateClose
  return e

/-- The predicates of an axis step. -/
def predicates : Parser (List Expr) :=
  many (whenEats Terminal.predicateOpen (predicate single))

/-- An axis step, if one begins here. -/
def axisStep : Parser (Option Expr) := do
  match ← stepTest with
  | none => return none
  | some (axis, test, offset) =>
    -- A kind test leaves the scanner among types.
    goto .operator
    let ps ← predicates single
    return some (← node (.step axis test ps) offset)

/-- An argument of a call, or the mark of an argument left open. -/
def argument : Parser Expr := do
  if ← eat Terminal.argumentPlaceholder then
    return ← node .argumentPlaceholder (← start)
  single

/-- Arguments, behind the opening parenthesis and through the closing one. -/
def argumentList : Parser (List Expr) := do
  if ← eat Terminal.rparen then
    return []
  let args ← separatedBy Terminal.comma (argument single)
  expect Terminal.rparen
  return args

/-- The next step of reading predicates and calls behind an expression, given the expression and
the predicates read since its last call. -/
def applicationStep (state : Expr × List Expr) : Parser ((Expr × List Expr) ⊕ Expr) := do
  let (base, ps) := state
  if ← eat Terminal.predicateOpen then
    return .inl (base, ps ++ [← predicate single])
  -- A call is applied to everything before it, predicates included.
  if ← eat Terminal.dynamicCall then
    let function ← filtered base ps
    let args ← argumentList single
    return .inl (← node (.dynamicCall function args) function.offset, [])
  return .inr (← filtered base ps)

/-- An expression with the predicates and calls behind it. -/
def applications (base : Expr) : Parser Expr :=
  iterate (applicationStep single) (base, [])

/-- An expression in parentheses; nothing at all is the empty sequence. -/
def parenthesized : Parser Expr := do
  let offset ← start
  if ← eat Terminal.rparen then
    return ← node (.sequence []) offset
  let e ← expr single
  expect Terminal.rparen
  return e

/-- A call of a function by name, if one begins here. -/
def functionCall? : Parser (Option Expr) := do
  if !(← peek Terminal.functionCall) then
    return none
  let lexical ← capturedQualifiedName 0
  -- Left alone, since it may be the kind test of a step.
  if isReservedFunctionName lexical then
    return none
  expect Terminal.functionCall
  let offset ← start
  let name ← functionName lexical offset
  let args ← argumentList single
  return some (← node (.functionCall name args) offset)

/-- A primary expression, if one begins here. -/
def primary : Parser (Option Expr) := do
  if let some e ← literal? then
    return some e
  if ← peek Terminal.variableReference then
    let name ← variableName
    return some (← node (.varRef name) (← start))
  if ← eat Terminal.lparen then
    return some (← parenthesized single)
  -- Two dots are a step, and not the context item.
  if !(← peek Terminal.parentStep) then
    if ← eat Terminal.contextItem then
      return some (← node .contextItem (← start))
  if let some e ← directConstructor single then
    return some e
  if let some e ← computedConstructor single then
    return some e
  if ← eat Terminal.orderedBlock then
    let offset ← start
    return some (← node (.ordered (← bracedExpr single)) offset)
  if ← eat Terminal.unorderedBlock then
    let offset ← start
    return some (← node (.unordered (← bracedExpr single)) offset)
  if ← peek Terminal.annotationName then
    return some (← inlineFunction single)
  if ← peek Terminal.inlineFunction then
    return some (← inlineFunction single)
  if ← eat Terminal.namedFunctionRef then
    return some (← namedFunctionRef)
  functionCall? single

/-- A step of a path: a primary expression with what is applied to it, or an axis step. -/
def stepExpr : Parser (Option Expr) := do
  match ← primary single with
  | some base => return some (← applications single base)
  | none => axisStep single

/-- A step that must be there. -/
def requiredStep : Parser Expr := do
  match ← stepExpr single with
  | some step => return step
  | none => unexpected "an expression"

/-- The steps behind a slash or a double slash, if one comes next. -/
def furtherSteps : Parser (Option (List Expr)) := do
  if ← eat Terminal.descendantsSeparator then
    let descend ← descendantStep (← start)
    return some [descend, ← requiredStep single]
  if ← eat Terminal.slashSeparator then
    return some [← requiredStep single]
  return none

/-- A path with its first steps read. -/
def relativePath (origin : PathRoot) (first : List Expr) (offset : Nat) : Parser Expr := do
  let steps := first ++ (← many (furtherSteps single)).flatten
  match origin, steps with
  | .relative, [step] =>
    match step.kind with
    | .step .. => node (.path origin steps) offset
    | _ => return step
  | _, _ => node (.path origin steps) offset

/-- A path. A single slash may stand alone. -/
def pathExpr : Parser Expr := do
  if ← eat Terminal.rootDescendants then
    let offset ← start
    let descend ← descendantStep offset
    let step ← requiredStep single
    return ← relativePath single .rootDescendants [descend, step] offset
  if ← eat Terminal.rootSlash then
    let offset ← start
    match ← stepExpr single with
    | some step => return ← relativePath single .root [step] offset
    | none =>
      -- The slash stands alone, and so ends an operand.
      goto .operator
      return ← node (.path .root []) offset
  let step ← requiredStep single
  relativePath single .relative [step] step.offset

end XQuerySyntax.Grammar
