import XQuerySyntax.Grammar.Flwor
import XQuerySyntax.Grammar.Operator
import XQuerySyntax.Grammar.Update

/-!
Single expressions: queries made of clauses, the expressions that begin with a keyword, and the
layers of operators. Here the knot is tied: a production that needs an expression gets the parser of
single expressions one level down.
-/

namespace XQuerySyntax.Grammar

open XQuerySyntax.Parser

/-- A name test of an error, which must be there. -/
def errorTest : Parser NameTest := do
  match ← nameTest none with
  | some test => return test
  | none => unexpected "an error name test"

/-- The tests of a handler, and the variables of the older form, if a handler comes next. -/
def catchTests : Parser (Option (List NameTest × List QName)) := do
  if ← eat Terminal.catchWithVariables then
    let test ← errorTest
    let names ← many (whenEats Terminal.comma variableName)
    expect Terminal.rparen
    return some ([test], names)
  if ← eat Terminal.catchClause then
    return some (← separatedBy Terminal.unionBar errorTest, [])
  return none

variable (single : Parser Expr)

/-- A variable of a quantified expression. -/
def quantifiedBinding : Parser (VariableBinding Expr) := do
  let (name, typeDecl) ← typedVariable
  expect Terminal.inSource
  return ⟨name, typeDecl, ← single⟩

/-- A quantified expression behind its quantifier. -/
def quantified (quantifier : Quantifier) (offset : Nat) : Parser Expr := do
  let bindings ← separatedBy Terminal.comma (quantifiedBinding single)
  expect Terminal.satisfies
  node (.quantified quantifier bindings (← single)) offset

/-- A conditional behind its keyword. -/
def conditional (offset : Nat) : Parser Expr := do
  let condition ← parenthesizedExpr single
  expect Terminal.thenBranch
  let thenExpr ← single
  expect Terminal.elseBranch
  let elseExpr ← single
  node (.ifThenElse condition thenExpr elseExpr) offset

/-- A branch of a switch, if one comes next: one or more values and a result. -/
def switchCase : Parser (Option (SwitchCase Expr)) := do
  match ← many (whenEats Terminal.caseBranch single) with
  | [] => return none
  | operands =>
    expect Terminal.returnClause
    return some ⟨operands, ← single⟩

/-- A switch behind its keyword, with at least one branch. -/
def switchExpr (offset : Nat) : Parser Expr := do
  let operand ← parenthesizedExpr single
  let cases ← many (switchCase single)
  if cases.isEmpty then
    unexpected "'case'"
  expect Terminal.defaultReturn
  let default ← single
  node (.switch operand cases default) offset

/-- The variable of a branch on types, if it has one. -/
def caseVariable : Parser (Option QName) := do
  if ← peek Terminal.variableReference then
    let name ← variableName
    expect Terminal.asType
    return some name
  return none

/-- A branch of a switch on types, if one comes next: one or more types and a result. -/
def typeswitchCase : Parser (Option (TypeswitchCase Expr)) :=
  whenEats Terminal.caseBranch do
    let name ← caseVariable
    let types ← separatedBy Terminal.typeUnion (sequenceType .operator)
    expect Terminal.returnClause
    return ⟨name, types, ← single⟩

/-- The variable of the default branch, if it has one. -/
def defaultVariable : Parser (Option QName) := do
  if ← eat Terminal.defaultVariable then
    let name ← variableName
    expect Terminal.returnClause
    return some name
  expect Terminal.defaultReturn
  return none

/-- A switch on types behind its keyword, with at least one branch. -/
def typeswitchExpr (offset : Nat) : Parser Expr := do
  let operand ← parenthesizedExpr single
  let cases ← many (typeswitchCase single)
  if cases.isEmpty then
    unexpected "'case'"
  let name ← defaultVariable
  let default ← single
  node (.typeswitch operand cases name default) offset

/-- A handler, if one comes next. -/
def catchClause : Parser (Option (CatchClause Expr)) := do
  match ← catchTests with
  | none => return none
  | some (tests, names) => return some ⟨tests, names, ← enclosedExpr single⟩

/-- An expression with handlers, behind its keyword. -/
def tryCatch (offset : Nat) : Parser Expr := do
  let body ← enclosedExpr single
  let catches ← many (catchClause single)
  if catches.isEmpty then
    unexpected "'catch'"
  node (.tryCatch body catches) offset

/-- A single expression, given the parser of the single expressions inside it. -/
def singleOf : Parser Expr := do
  if let some e ← flwor single then
    return e
  if ← eat Terminal.someQuantifier then
    return ← quantified single .some (← start)
  if ← eat Terminal.everyQuantifier then
    return ← quantified single .every (← start)
  if ← eat Terminal.switch then
    return ← switchExpr single (← start)
  if ← eat Terminal.typeswitch then
    return ← typeswitchExpr single (← start)
  if ← eat Terminal.ifCondition then
    return ← conditional single (← start)
  if ← eat Terminal.tryBody then
    return ← tryCatch single (← start)
  if let some e ← updateExpr single then
    return e
  if let some e ← scriptingExpr single then
    return e
  orExpr single

/-- A single expression, with at most so many single expressions inside one another. -/
def singleWithin : Nat → Parser Expr
  | 0 => exhausted
  | n + 1 => nested (singleOf (singleWithin n))

/-- A single expression. -/
def exprSingle : Parser Expr := do
  singleWithin (← get).steps

end XQuerySyntax.Grammar
