import XQuerySyntax.Lexing.Matcher
import XQuerySyntax.Static.Context

/-!
Parsers: what the productions of the grammar are written in. A parser changes the state of the
matcher and the static context, records errors that leave a usable tree, and stops at the first one
that does not. The state survives a stop, so what was recorded before is not lost.

Loops run within a number of steps that the length of the text bounds. Every round of a loop reads
some text, so the bound is never reached; a loop that did reach it would stop and say so.
-/

namespace XQuerySyntax

/-- The state of parsing a module. -/
structure ParserState where
  scan : Matcher
  context : StaticContext
  /-- The diagnostics recorded so far, in order. -/
  recorded : List Diagnostic
  module : ModuleId
  /-- The number of constructs open now that count against the limit. -/
  depth : Nat
  maxDepth : Nat
  /-- The namespace of the library module being parsed. -/
  libraryNamespace : Option String
  /-- The qualifiers bound by the prolog so far. -/
  declaredPrefixes : List String
  /-- How often a capture was read that the last match had not made. -/
  strayReads : Nat

/-- Why a parser stops. -/
inductive Stop where
  /-- An error that leaves no tree. -/
  | fatal (diagnostic : Diagnostic)
  /-- A loop has used up its steps. -/
  | exhausted

/-- Parsers. -/
abbrev Parser := EStateM Stop ParserState

namespace ParserState

/-- The state before the first character. -/
def ofText (text : String) (config : Config) : ParserState where
  scan := .ofText text config.extensions
  context := .ofConfig config
  recorded := []
  module := .ofLocation? config.sourceUri
  depth := 0
  maxDepth := config.maxDepth
  libraryNamespace := none
  declaredPrefixes := []
  strayReads := 0

/-- The number of steps that a loop may take: more than the text has characters. -/
def steps (s : ParserState) : Nat := s.scan.cursor.size + 1

end ParserState

namespace Parser

/-! ### Stopping and recording -/

/-- Stops with an error. -/
def stop {α : Type} (diagnostic : Diagnostic) : Parser α := throw (.fatal diagnostic)

/-- Stops with an error at an offset. -/
def fatal {α : Type} (code : ErrorCode) (offset : Nat) (message : String) : Parser α :=
  stop (.error code offset message)

/-- Stops for want of steps. -/
def exhausted {α : Type} : Parser α := throw .exhausted

/-- Records a diagnostic. -/
def note (diagnostic : Diagnostic) : Parser Unit :=
  modify fun s => { s with recorded := s.recorded ++ [diagnostic] }

/-- Records an error. -/
def record (code : ErrorCode) (offset : Nat) (message : String) : Parser Unit :=
  note (.error code offset message)

/-- Records a warning. -/
def warn (code : ErrorCode) (offset : Nat) (message : String) : Parser Unit :=
  note (.warning code offset message)

/-! ### Scanning -/

/-- Runs a scanning step. -/
def scan {α : Type} (step : Scan α) : Parser α := fun s =>
  match step s.scan with
  | .ok a m => .ok a { s with scan := m }
  | .error d m => .error (.fatal d) { s with scan := m }

/-- Reads something from the state of the matcher. The reading is counted if it is not there. -/
def observe {α : Type} (f : Matcher → α) (there : Matcher → Bool) : Parser α := do
  modify fun s => { s with strayReads := s.strayReads + (!there s.scan).toNat }
  return f (← get).scan

/-- Matches a rule where it is allowed. -/
def eat (r : Rule) : Parser Bool := scan (Scan.eat r)

/-- Tests a rule. -/
def peek (r : Rule) : Parser Bool := scan (Scan.peek r)

/-- Runs a scanner of text that no rule describes. -/
def lexeme {α : Type} (scanner : List Char → Scanned α) : Parser (Option α) :=
  scan (Scan.lexeme scanner)

/-- Whether only blanks and comments remain. -/
def atEnd : Parser Bool := scan Scan.atEnd

/-- Changes the lexical state. -/
def goto (state : LexicalState) : Parser Unit :=
  modify fun s => { s with scan := s.scan.goto state }

/-- Remembers position and lexical state. -/
def mark : Parser Matcher.Mark := observe Matcher.mark fun _ => true

/-- Comes back to a mark. -/
def restore (place : Matcher.Mark) : Parser Unit :=
  modify fun s => { s with scan := s.scan.restore place }

/-- Where the last match began. -/
def start : Parser Nat := observe Matcher.tokenStart fun _ => true

/-- Where the next character that is not space stands. -/
def nextOffset : Parser Nat := observe Matcher.nextOffset fun _ => true

/-- A simple name of the last match. -/
def capturedName (i : Nat) : Parser String :=
  observe (fun m => m.captures.name i) fun m => m.captures.has .name i

/-- A qualified name of the last match. -/
def capturedQualifiedName (i : Nat) : Parser LexicalName :=
  observe (fun m => m.captures.qualifiedName i) fun m => m.captures.has .qualifiedName i

/-- A string of the last match. -/
def capturedString (i : Nat) : Parser String :=
  observe (fun m => m.captures.string i) fun m => m.captures.has .string i

/-- A number of the last match. -/
def capturedNumber? (i : Nat) : Parser (Option Literal) :=
  observe (fun m => m.captures.number? i) fun m => m.captures.has .number i

/-- Stops with a syntax error at the next character. -/
def unexpected {α : Type} (expected : String) : Parser α := do
  let m ← observe id fun _ => true
  fatal .malformed m.nextOffset ("expected " ++ expected ++ ", found " ++ m.excerpt)

/-- Matches a rule, or stops. -/
def expect (r : Rule) : Parser Unit := do
  if !(← eat r) then unexpected ("'" ++ r.describe ++ "'")

/-- Stops unless only blanks and comments remain. -/
def expectEnd : Parser Unit := do
  if !(← atEnd) then unexpected "end of input"

/-! ### Nodes -/

/-- A node of the module being parsed. -/
def node (kind : ExprKind Expr) (offset : Nat) : Parser Expr :=
  return ⟨kind, offset, (← get).module⟩

/-- Runs a parser one level deeper; stops when that is too deep. -/
def nested {α : Type} (p : Parser α) : Parser α := do
  modify fun s => { s with depth := s.depth + 1 }
  let s ← get
  if s.depth > s.maxDepth then
    fatal .implementationLimit s.scan.nextOffset
      ("expression nesting exceeds " ++ toString s.maxDepth ++ " levels")
  let a ← p
  -- A parser that stops does not come back here, and its depth no longer matters.
  modify fun s => { s with depth := s.depth - 1 }
  return a

/-! ### Context -/

/-- Reads from the static context. -/
def consult {α : Type} (f : StaticContext → α) : Parser α := return f (← get).context

/-- Changes the static context. -/
def amend (f : StaticContext → StaticContext) : Parser Unit :=
  modify fun s => { s with context := f s.context }

/-- Changes the static context and keeps the answer. -/
def amendGet {α : Type} (f : StaticContext → α × StaticContext) : Parser α :=
  modifyGet fun s => let (a, context) := f s.context; (a, { s with context })

/-! ### Loops -/

/-- Repeats a parser within a number of steps until it gives nothing. -/
def manyWithin {α : Type} (p : Parser (Option α)) : Nat → Parser (List α)
  | 0 => exhausted
  | n + 1 => do
    match ← p with
    | none => return []
    | some a => return a :: (← manyWithin p n)

/-- Repeats a parser until it gives nothing. -/
def many {α : Type} (p : Parser (Option α)) : Parser (List α) := do
  manyWithin p (← get).steps

/-- Runs a parser if a rule matches. -/
def whenEats {α : Type} (r : Rule) (p : Parser α) : Parser (Option α) := do
  if ← eat r then return some (← p) else return none

/-- What a parser gives, and what it gives again behind each match of a rule. -/
def separatedBy {α : Type} (separator : Rule) (p : Parser α) : Parser (List α) := do
  let first ← p
  return first :: (← many (whenEats separator p))

/-- Repeats a step on a value within a number of steps until it gives a result. -/
def iterateWithin {σ α : Type} (step : σ → Parser (σ ⊕ α)) : Nat → σ → Parser α
  | 0, _ => exhausted
  | n + 1, a => do
    match ← step a with
    | .inl next => iterateWithin step n next
    | .inr result => return result

/-- Repeats a step on a value until it gives a result. -/
def iterate {σ α : Type} (step : σ → Parser (σ ⊕ α)) (init : σ) : Parser α := do
  iterateWithin step (← get).steps init

/-- The value of the first of several rules that matches. -/
def eatFirst {α : Type} : List (Rule × α) → Parser (Option α)
  | [] => return none
  | (r, a) :: rest => do if ← eat r then return some a else eatFirst rest

end Parser

end XQuerySyntax
