import XQuerySyntax.Grammar.FullText
import XQuerySyntax.Grammar.Path

/-!
The layers of operators, from the tightest to the loosest. Chains of binary operators associate to
the left; comparisons and ranges do not chain. Where one operator begins with another, the longer
one is tried first.
-/

namespace XQuerySyntax.Grammar

open XQuerySyntax.Parser

/-- The operators of a layer, in the order in which they are tried. -/
abbrev OperatorTable := List (Rule × BinaryOperator)

namespace OperatorTable

/-- Disjunction. -/
def disjunction : OperatorTable := [(Terminal.orWord, .or)]

/-- Conjunction. -/
def conjunction : OperatorTable := [(Terminal.andWord, .and)]

/-- Comparisons of sequences, of single values and of nodes. -/
def comparison : OperatorTable :=
  -- A symbol stands in front of those that it begins with.
  [(Terminal.generalNotEquals, .notEquals), (Terminal.generalLessEqual, .lessThanOrEqual),
    (Terminal.nodePrecedes, .precedes), (Terminal.generalLess, .lessThan),
    (Terminal.generalGreaterEqual, .greaterThanOrEqual), (Terminal.nodeFollows, .follows),
    (Terminal.generalGreater, .greaterThan), (Terminal.generalEquals, .equals),
    (Terminal.valueEquals, .valueEq), (Terminal.valueNotEquals, .valueNe),
    (Terminal.valueLess, .valueLt), (Terminal.valueLessEqual, .valueLe),
    (Terminal.valueGreater, .valueGt), (Terminal.valueGreaterEqual, .valueGe),
    (Terminal.isSameNode, .is)]

/-- Sums. -/
def additive : OperatorTable := [(Terminal.plus, .plus), (Terminal.minus, .minus)]

/-- Products. -/
def multiplicative : OperatorTable :=
  [(Terminal.multiply, .multiply), (Terminal.integerDivide, .integerDivide),
    (Terminal.divide, .divide), (Terminal.modulo, .modulo)]

/-- Unions. -/
def union : OperatorTable := [(Terminal.unionWord, .union), (Terminal.unionBar, .union)]

/-- Intersections and differences. -/
def intersection : OperatorTable :=
  [(Terminal.intersectWord, .intersect), (Terminal.exceptWord, .except)]

end OperatorTable

/-- The next step of a chain: an operator with its right operand, or the end. -/
def chainStep (operators : OperatorTable) (operand : Parser Expr) (left : Expr) :
    Parser (Expr ⊕ Expr) := do
  match ← eatFirst operators with
  | none => return .inr left
  | some op =>
    let offset ← start
    let right ← operand
    return .inl (← node (.binary op left right) offset)

/-- A chain of operands that associates to the left. -/
def chain (operators : OperatorTable) (operand : Parser Expr) : Parser Expr := do
  iterate (chainStep operators operand) (← operand)

/-- An operand with at most one operator behind it, which makes a new form of it. -/
def suffixed (operator : Rule) (operand : Parser Expr) (form : Expr → Parser (ExprKind Expr)) :
    Parser Expr := do
  let left ← operand
  if ← eat operator then
    let offset ← start
    return ← node (← form left) offset
  return left

/-- A sign, if one comes next, with its place. -/
def sign? : Parser (Option (UnaryOperator × Nat)) := do
  match ← eatFirst [(Terminal.unaryMinus, UnaryOperator.minus), (Terminal.unaryPlus, .plus)] with
  | none => return none
  | some op => return some (op, ← start)

/-- Puts signs in front of an operand. -/
def applySigns (operand : Expr) : List (UnaryOperator × Nat) → Parser Expr
  | [] => return operand
  | (op, offset) :: signs => do node (.unary op (← applySigns operand signs)) offset

/-- The mode of a validation by its name. -/
def validationMode (name : String) (offset : Nat) : Parser ValidationMode :=
  if name = "lax" then return .lax
  else if name = "strict" then return .strict
  else fatal .malformed offset ("unknown validation mode '" ++ name ++ "'")

variable (single : Parser Expr)

/-- A validation, an extension or a path. -/
def valueExpr : Parser Expr := do
  if ← eat Terminal.validateType then
    let offset ← start
    let typeName ← elementName (← capturedQualifiedName 0) offset
    return ← node (.validate none (some typeName) (← bracedExpr single)) offset
  if ← eat Terminal.validateMode then
    let offset ← start
    let mode ← validationMode (← capturedName 0) offset
    return ← node (.validate (some mode) none (← bracedExpr single)) offset
  if ← eat Terminal.validate then
    let offset ← start
    return ← node (.validate none none (← bracedExpr single)) offset
  if ← peek Terminal.pragmaOpen then
    return ← extensionExpr single
  pathExpr single

/-- An operand with its signs. -/
def unaryExpr : Parser Expr := do
  let signs ← many sign?
  applySigns (← valueExpr single) signs

/-- A cast. -/
def castExpr : Parser Expr :=
  suffixed Terminal.castAs (unaryExpr single) fun e => return .castAs e (← singleType)

/-- A test whether a cast is possible. -/
def castableExpr : Parser Expr :=
  suffixed Terminal.castableAs (castExpr single) fun e => return .castableAs e (← singleType)

/-- A promise of a type. -/
def treatExpr : Parser Expr :=
  suffixed Terminal.treatAs (castableExpr single) fun e =>
    return .treatAs e (← sequenceType .operator)

/-- A test of a type. -/
def instanceOfExpr : Parser Expr :=
  suffixed Terminal.instanceOf (treatExpr single) fun e =>
    return .instanceOf e (← sequenceType .operator)

/-- Intersections and differences. -/
def intersectExpr : Parser Expr := chain .intersection (instanceOfExpr single)

/-- Unions. -/
def unionExpr : Parser Expr := chain .union (intersectExpr single)

/-- Products. -/
def multiplicativeExpr : Parser Expr := chain .multiplicative (unionExpr single)

/-- Sums. -/
def additiveExpr : Parser Expr := chain .additive (multiplicativeExpr single)

/-- A range of numbers. -/
def rangeExpr : Parser Expr :=
  suffixed Terminal.toRange (additiveExpr single) fun first =>
    return .range first (← additiveExpr single)

/-- A full-text search in the value of an expression. -/
def ftContainsExpr : Parser Expr := do
  let left ← rangeExpr single
  if (← eatFirst [(Terminal.ftContains, ()), (Terminal.containsText, ())]).isNone then
    return left
  let offset ← start
  let selection ← ftSelection single (additiveExpr single)
  let withoutContent ← whenEats Terminal.withoutContent (unionExpr single)
  node (.ftContains left selection withoutContent) offset

/-- A comparison. -/
def comparisonExpr : Parser Expr := do
  let left ← ftContainsExpr single
  match ← eatFirst OperatorTable.comparison with
  | none => return left
  | some op =>
    let offset ← start
    let right ← ftContainsExpr single
    node (.binary op left right) offset

/-- Conjunctions. -/
def andExpr : Parser Expr := chain .conjunction (comparisonExpr single)

/-- Disjunctions, the loosest layer. -/
def orExpr : Parser Expr := chain .disjunction (andExpr single)

end XQuerySyntax.Grammar
