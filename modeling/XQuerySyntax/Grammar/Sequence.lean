import XQuerySyntax.Grammar.Name

/-!
Expressions with commas between them, and expressions in braces. The productions here and in the
other modules of the grammar are given over a parser of single expressions; the grammar ties the
knot in one place.
-/

namespace XQuerySyntax.Grammar

open XQuerySyntax.Parser

variable (single : Parser Expr)

/-- Single expressions with commas between them; one alone is itself. -/
def expr : Parser Expr := do
  let first ← single
  if !(← peek Terminal.comma) then
    return first
  let rest ← many (whenEats Terminal.comma single)
  node (.sequence (first :: rest)) first.offset

/-- An expression up to a closing brace, which may be missing. -/
def exprUpToBrace? : Parser (Option Expr) := do
  if ← eat Terminal.rbrace then
    return none
  let e ← expr single
  expect Terminal.rbrace
  return some e

/-- An expression up to a closing brace; nothing at all is the empty sequence. -/
def exprUpToBrace (offset : Nat) : Parser Expr := do
  match ← exprUpToBrace? single with
  | some e => return e
  | none => node (.sequence []) offset

/-- An optional expression in braces; nothing at all is the empty sequence. -/
def enclosedExpr : Parser Expr := do
  expect Terminal.lbrace
  exprUpToBrace single (← start)

/-- An expression in braces. -/
def bracedExpr : Parser Expr := do
  expect Terminal.lbrace
  let e ← expr single
  expect Terminal.rbrace
  return e

/-- An optional expression in braces. -/
def optionalExpr : Parser (Option Expr) := do
  expect Terminal.lbrace
  exprUpToBrace? single

/-- An expression in parentheses. -/
def parenthesizedExpr : Parser Expr := do
  expect Terminal.lparen
  let e ← expr single
  expect Terminal.rparen
  return e

/-- A pragma with its place, if one comes next. -/
def pragma? : Parser (Option (Pragma × Nat)) :=
  whenEats Terminal.pragmaOpen do
    let offset ← start
    let name ← plainName (← capturedQualifiedName 0) offset
    let contents ← lexeme (scanDelimited "#)" "pragma")
    return (⟨name, contents.getD ""⟩, offset)

/-- Pragmas, with the place of the first. -/
def pragmas : Parser (List Pragma × Nat) := do
  match ← many pragma? with
  | [] => return ([], ← start)
  | (first, offset) :: rest => return (first :: rest.map (·.1), offset)

/-- Pragmas and what they apply to, in braces. -/
def extensionExpr : Parser Expr := do
  let (ps, offset) ← pragmas
  let e ← optionalExpr single
  node (.extension ps e) offset

end XQuerySyntax.Grammar
