import XQuerySyntax.Grammar.Name
import XQuerySyntax.Grammar.Parser
import XQuerySyntax.Grammar.Sequence
import XQuerySyntax.Grammar.SequenceType
import XQuerySyntax.Terminals.Expr

/-!
Expressions of the update and scripting extensions. Statements are blocks with variables of their
own, assignments, loops and exits; the body of a main module may be a list of statements too. Updates
insert, delete, replace and rename nodes, or change a copy.
-/

namespace XQuerySyntax.Grammar

open XQuerySyntax.Parser

variable (single : Parser Expr)

/-! ### Statements -/

/-- A variable of a block. -/
def blockVariable : Parser (BlockVarDecl Expr) := do
  let (name, typeDecl) ← typedVariable
  let value ← whenEats Terminal.assign single
  return { name, typeDecl, value }

/-- A declaration of variables in a block, if one comes next. -/
def blockDeclaration : Parser (Option (List (BlockVarDecl Expr))) :=
  whenEats Terminal.blockDeclare do
    let declared ← separatedBy Terminal.comma (blockVariable single)
    expect Terminal.statementSeparator
    return declared

/-- The next step of reading statements up to a closing brace, given those read so far. -/
def blockStatement (body : List Expr) : Parser (List Expr ⊕ List Expr) := do
  if ← eat Terminal.rbrace then
    return .inr body
  let e ← expr single
  if ← eat Terminal.statementSeparator then
    return .inl (body ++ [e])
  -- Only the last statement may go without a separator.
  expect Terminal.rbrace
  return .inr (body ++ [e])

/-- The content of a block, behind its opening brace and through the closing one. -/
def blockBody (offset : Nat) : Parser Expr := do
  let declarations ← many (blockDeclaration single)
  let body ← iterate (blockStatement single) []
  node (.block declarations.flatten body) offset

/-- The form of a statement, if one begins here. -/
def statementKind : Parser (Option (ExprKind Expr)) := do
  if ← eat Terminal.whileLoop then
    let condition ← parenthesizedExpr single
    goto .expression
    return some (.whileLoop condition (← single))
  if (← eatFirst [(Terminal.exitReturning, ()), (Terminal.exitWith, ())]).isSome then
    return some (.exit (← single))
  if ← eat Terminal.breakLoop then
    return some .breakLoop
  if ← eat Terminal.continueLoop then
    return some .continueLoop
  if ← eat Terminal.setVariable then
    let name ← variableName
    expect Terminal.assign
    return some (.assign name (← single))
  if ← eat Terminal.assignment then
    let offset ← start
    let name ← plainName (← capturedQualifiedName 0) offset
    return some (.assign name (← single))
  return none

/-- A statement, if one begins here. -/
def scriptingExpr : Parser (Option Expr) := do
  let offset ← nextOffset
  if ← eat Terminal.blockOpen then
    expect Terminal.lbrace
    return some (← blockBody single offset)
  match ← statementKind single with
  | none => return none
  | some kind => return some (← node kind offset)

/-- The next step of reading statements up to the end of the text, given those read so far. -/
def queryStatement (body : List Expr) : Parser (List Expr ⊕ List Expr) := do
  if ← atEnd then
    return .inr body
  let e ← expr single
  if ← eat Terminal.statementSeparator then
    return .inl (body ++ [e])
  -- If anything remains, the caller refuses it.
  return .inr (body ++ [e])

/-- The body of a main module: an expression, or statements, which make a block. -/
def queryBody : Parser Expr := do
  let offset ← nextOffset
  let first ← expr single
  if !(← eat Terminal.statementSeparator) then
    return first
  let body ← iterate (queryStatement single) [first]
  node (.block [] body) offset

/-! ### Updates -/

/-- Where nodes are inserted. -/
def insertPosition : Parser InsertPosition := do
  let position ← eatFirst [(Terminal.asFirstInto, InsertPosition.asFirstInto),
    (Terminal.asLastInto, .asLastInto), (Terminal.intoTarget, .into),
    (Terminal.afterTarget, .after), (Terminal.beforeTarget, .before)]
  match position with
  | some position => return position
  | none => unexpected "'into', 'as first into', 'as last into', 'after' or 'before'"

/-- The replacement of a node, or of its value. -/
def replace (valueOf : Bool) : Parser (ExprKind Expr) := do
  let target ← single
  expect Terminal.withReplacement
  return .replace valueOf target (← single)

/-- A copied node. -/
def copyBinding : Parser (VariableBinding Expr) := do
  let name ← variableName
  expect Terminal.assign
  return ⟨name, none, ← single⟩

/-- The change of copied nodes. -/
def transform : Parser (ExprKind Expr) := do
  let bindings ← separatedBy Terminal.comma (copyBinding single)
  expect Terminal.modifyClause
  let modify ← single
  expect Terminal.returnClause
  return .transform bindings modify (← single)

/-- The form of an updating expression, if one begins here. -/
def updateKind : Parser (Option (ExprKind Expr)) := do
  if (← eatFirst [(Terminal.insertNode, ()), (Terminal.insertNodes, ())]).isSome then
    let source ← single
    let position ← insertPosition
    return some (.insert source position (← single))
  if (← eatFirst [(Terminal.deleteNode, ()), (Terminal.deleteNodes, ())]).isSome then
    return some (.delete (← single))
  if ← eat Terminal.replaceValue then
    return some (← replace single true)
  if ← eat Terminal.replaceNode then
    return some (← replace single false)
  if ← eat Terminal.renameNode then
    let target ← single
    expect Terminal.asName
    return some (.rename target (← single))
  whenEats Terminal.copyClause (transform single)

/-- An updating expression, if one begins here. -/
def updateExpr : Parser (Option Expr) := do
  let offset ← nextOffset
  match ← updateKind single with
  | none => return none
  | some kind => return some (← node kind offset)

end XQuerySyntax.Grammar
