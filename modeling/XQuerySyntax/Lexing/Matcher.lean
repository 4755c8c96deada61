import XQuerySyntax.Diagnostic
import XQuerySyntax.Lexeme.Markup
import XQuerySyntax.Lexeme.Name
import XQuerySyntax.Lexeme.Numeral
import XQuerySyntax.Lexeme.Reference
import XQuerySyntax.Lexeme.Trivia
import XQuerySyntax.Lexing.Cursor
import XQuerySyntax.Lexing.Rule

/-!
The matcher: a position in the text, the lexical state, and what the last match captured. A rule
that does not match leaves position and state alone; malformed text is an error, which leaves them
alone too. Testing a rule leaves position and state alone in any case.
-/

namespace XQuerySyntax

/-- What a placeholder of a pattern matched. -/
inductive Capture where
  | name (value : String)
  | qualifiedName (value : LexicalName)
  | string (value : String)
  | number (value : Literal)
  deriving DecidableEq, Repr, Inhabited

/-- Whether a capture can be read as one of a kind: as one of its own, or as a name. -/
def Capture.readsAs : Capture → Placeholder → Bool
  | .name _, .name | .name _, .qualifiedName | .qualifiedName _, .qualifiedName => true
  | .qualifiedName n, .name => n.qualifier.isNone
  | .string _, .string | .number _, .number => true
  | _, _ => false

/-- What the last successful match captured. Reading a capture of another kind, or one that is not
there, gives an empty value. -/
abbrev Captures := List Capture

namespace Captures

/-- A simple name. -/
def name (captures : Captures) (i : Nat) : String :=
  match captures[i]? with
  | some (.name n) => n
  | some (.qualifiedName ⟨none, n⟩) => n
  | _ => ""

/-- A qualified name. -/
def qualifiedName (captures : Captures) (i : Nat) : LexicalName :=
  match captures[i]? with
  | some (.qualifiedName n) => n
  | some (.name n) => .ofLocal n
  | _ => .ofLocal ""

/-- The value of a string literal. -/
def string (captures : Captures) (i : Nat) : String :=
  match captures[i]? with
  | some (.string s) => s
  | _ => ""

/-- The value of a number. -/
def number? (captures : Captures) (i : Nat) : Option Literal :=
  match captures[i]? with
  | some (.number n) => some n
  | _ => none

/-- Whether there is a capture that can be read as one of a kind. -/
def has (captures : Captures) (kind : Placeholder) (i : Nat) : Bool :=
  captures[i]?.any fun c => c.readsAs kind

theorem has_number (captures : Captures) (i : Nat) :
    captures.has .number i = (captures.number? i).isSome := by
  unfold has number?
  cases captures[i]? with
  | none => rfl
  | some c => cases c <;> rfl

end Captures

/-- The state of scanning a text. -/
structure Matcher where
  cursor : Cursor
  stack : StateStack
  captures : Captures
  /-- The text that remained where the last successful match began. -/
  token : List Char
  extensions : Extensions
  /-- How often a match came back although nothing was saved. Going back to a mark does not undo
  it. -/
  strayPops : Nat
  deriving Inhabited

/-- Scanning steps. The state survives an error. -/
abbrev Scan := EStateM Diagnostic Matcher

namespace Matcher

/-- The start of a text, before an operand. -/
def ofText (text : String) (extensions : Extensions) : Matcher :=
  ⟨Cursor.ofText text, .ofState .expression, [], text.toList, extensions, 0⟩

/-- The active lexical state. -/
def state (m : Matcher) : LexicalState := m.stack.active

/-- The byte offset where the last successful match began. -/
def tokenStart (m : Matcher) : Nat := m.cursor.offsetOf m.token

/-- Moves to a place given by the text that remains there. -/
def moveTo (m : Matcher) (rest : List Char) : Matcher :=
  { m with cursor := m.cursor.moveTo rest }

/-- Changes the active lexical state. -/
def goto (m : Matcher) (s : LexicalState) : Matcher :=
  { m with stack := m.stack.goto s }

/-- Makes the state change of a match. -/
def apply (m : Matcher) (next : Transition) : Matcher :=
  { m with
    stack := m.stack.apply next
    strayPops := m.strayPops + (m.stack.isStray next).toNat }

/-- A position and lexical state to come back to. -/
structure Mark where
  rest : List Char
  stack : StateStack

/-- Remembers position and lexical state. -/
def mark (m : Matcher) : Mark := ⟨m.cursor.rest, m.stack⟩

/-- Comes back to a mark. -/
def restore (m : Matcher) (mark : Mark) : Matcher :=
  { m.moveTo mark.rest with stack := mark.stack }

/-- The byte offset of the next character that is not space. -/
def nextOffset (m : Matcher) : Nat :=
  m.cursor.offsetOf (m.cursor.rest.dropWhile Text.isSpace)

/-- The beginning of the text that comes next, spaces aside. -/
def excerpt (m : Matcher) : String :=
  Cursor.excerptOf (m.cursor.rest.dropWhile Text.isSpace)

/-- Whether a rule may match at all: it belongs to the active state and to an extension that is
switched on. -/
def admits (m : Matcher) (r : Rule) : Bool :=
  r.states.contains m.state && m.extensions.enables r.extension

end Matcher

/-- The diagnostic for malformed text. -/
def LexicalFault.diagnostic (fault : LexicalFault) (offset : Nat) : Diagnostic :=
  .error (if fault = .illegalCharacter then .invalidCharacterReference else .malformed)
    offset fault.message

namespace Scan

/-- Runs a scanner and moves behind its lexeme. -/
def lexeme {α : Type} (scanner : List Char → Scanned α) : Scan (Option α) := fun m =>
  match scanner m.cursor.rest with
  | .found value rest => .ok (some value) (m.moveTo rest)
  | .absent => .ok none m
  | .faulty fault place => .error (fault.diagnostic (m.cursor.offsetOf place)) m

/-- Skips blanks, and comments where the state has them. -/
def skipTrivia : Scan Unit := fun m =>
  ((fun _ => ()) <$> lexeme (scanTrivia m.state.skipsComments)) m

/-- Whether only blanks and comments remain. -/
def atEnd : Scan Bool := fun m =>
  match lexeme (scanTrivia true) m with
  | .ok _ m' => .ok m'.cursor.atEnd (m'.moveTo m.cursor.rest)
  | .error d m' => .error d (m'.moveTo m.cursor.rest)

/-- Matches one character. -/
def char (c : Char) : Scan Bool := fun m =>
  if m.cursor.current? = some c then .ok true { m with cursor := m.cursor.advance }
  else .ok false m

/-- Adds a capture if there is one. -/
def keep (capture : Option Capture) : Scan Bool := fun m =>
  match capture with
  | some c => .ok true { m with captures := m.captures ++ [c] }
  | none => .ok false m

/-- Matches a number; a number without a value is an error at its start. -/
def number : Scan (Option Literal) := fun m =>
  match lexeme scanNumeral m with
  | .ok (some numeral) m' =>
    match numeral.value with
    | .ok value => .ok (some value) m'
    | .error overflow => .error (.error .implementationLimit m.cursor.pos overflow.message) m'
  | .ok none m' => .ok none m'
  | .error d m' => .error d m'

/-- Matches a placeholder and captures its value. -/
def placeholder : Placeholder → Scan Bool
  | .name => do keep ((← lexeme scanName).map .name)
  | .qualifiedName => do keep ((← lexeme scanQualifiedName).map .qualifiedName)
  | .string => do keep ((← lexeme scanStringLiteral).map .string)
  | .number => do keep ((← number).map .number)

/-- Whether the matched word ends here: the next character does not continue a name. -/
def wordEnds : Scan Bool := fun m =>
  .ok (!m.cursor.current?.any isNameChar) m

/-- Whether the next token stands apart from the one before. -/
def separated : Scan Bool := fun m =>
  .ok (startsTrivia m.state.skipsComments m.cursor.rest) m

/-- The text that remains. -/
def remaining : Scan (List Char) := fun m => .ok m.cursor.rest m

/-- Matches the parts of a pattern. `afterWord` says that the part before was a word. The answer is
the text that remains at the anchor, or at the end of the match if there is no anchor; there is no
answer if the pattern does not match. -/
def items : List PatternItem → Bool → Option (List Char) → Scan (Option (List Char))
  | [], _, anchor => do return some (anchor.getD (← remaining))
  | .anchor :: rest, afterWord, _ => do items rest afterWord (some (← remaining))
  | .gap :: rest, afterWord, anchor => do
    let apart ← separated
    skipTrivia
    -- Two words in a row need something between them.
    if afterWord && PatternItem.startsWord rest && !apart then return none
    items rest afterWord anchor
  | .capture kind :: rest, _, anchor => do
    if ← placeholder kind then items rest (kind != .string) anchor else return none
  | .percent :: rest, _, anchor => do
    if ← char '%' then items rest false anchor else return none
  | .never :: _, _, _ => return none
  | .char c :: rest, afterWord, anchor => do
    if ← char c then
      -- A hyphen belongs to a word only behind one.
      let word := PatternItem.isWordChar c || (c == '-' && afterWord)
      -- The last character of a word must not be continued by the text.
      if word && !PatternItem.continuesWord rest then
        if ← wordEnds then items rest true anchor else return none
      else items rest word anchor
    else return none

/-- Matches a pattern whatever the state. If it does not match, nothing is captured and the position
is as before; it is as before after an error too. -/
def pattern (parts : List PatternItem) : Scan Bool := fun m =>
  let m₀ := { m with captures := [] }
  let skip : Scan Unit := if m.state.skipsBlanks then skipTrivia else pure ()
  match skip m₀ with
  | .error d m₁ => .error d m₁
  | .ok () m₁ =>
    match items parts false none m₁ with
    -- The token begins behind the blanks in front of it.
    | .ok (some rest) m₂ => .ok true { m₂.moveTo rest with token := m₁.cursor.rest }
    | .ok none m₂ => .ok false { m₂.moveTo m.cursor.rest with captures := [] }
    | .error d m₂ => .error d (m₂.moveTo m.cursor.rest)

/-- Matches a rule where it is allowed, and makes its state change. -/
def eat (r : Rule) : Scan Bool := fun m =>
  if m.admits r then
    match pattern r.items m with
    | .ok true m' => .ok true (m'.apply r.next)
    | result => result
  else .ok false m

/-- Tests a rule. What it captures stays readable. -/
def peek (r : Rule) : Scan Bool := fun m =>
  if m.admits r then
    match pattern r.items m with
    | .ok matched m' => .ok matched (m'.moveTo m.cursor.rest)
    | .error d m' => .error d m'
  else .ok false m

end Scan

end XQuerySyntax
