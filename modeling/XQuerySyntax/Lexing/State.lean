/-!
Lexical states. The same word is a name in one place and a keyword in another, and blanks are
skipped in one place and kept in another; the lexical state says which. Constructs that nest text
of another kind save the state to return to on a stack.
-/

namespace XQuerySyntax

/-- Where the scanner stands. -/
inductive LexicalState where
  /-- Before an operand. -/
  | expression
  /-- Behind an operand. -/
  | operator
  /-- Behind the word that opens a declaration. -/
  | declare
  /-- Inside the tag of an element. -/
  | tag
  /-- In the content of an element. -/
  | content
  /-- In an attribute value between apostrophes. -/
  | apostropheValue
  /-- In an attribute value between double quotes. -/
  | quotedValue
  /-- In a sequence type. -/
  | kindTest
  /-- In a namespace declaration or an import. -/
  | namespaceDeclaration
  /-- In the declaration of a variable or a parameter. -/
  | variableDeclaration
  /-- Behind an item type. -/
  | occurrence
  /-- In a thesaurus option. -/
  | thesaurus
  deriving DecidableEq, Repr, Inhabited

namespace LexicalState

/-- Every state, in a fixed order. -/
def all : List LexicalState :=
  [expression, operator, declare, tag, content, apostropheValue, quotedValue, kindTest,
    namespaceDeclaration, variableDeclaration, occurrence, thesaurus]

/-- The place of a state in the fixed order. -/
def index (s : LexicalState) : Nat :=
  all.idxOf s

/-- States inside markup. -/
def isMarkup (s : LexicalState) : Bool :=
  s == tag || s == content || s == apostropheValue || s == quotedValue

/-- Comments stand between tokens everywhere but in markup. -/
def skipsComments (s : LexicalState) : Bool :=
  !s.isMarkup

/-- Blanks are significant in element content and attribute values. -/
def skipsBlanks (s : LexicalState) : Bool :=
  !(s == content || s == apostropheValue || s == quotedValue)

end LexicalState

/-- A set of lexical states. -/
structure StateSet where
  contains : LexicalState → Bool

namespace StateSet

/-- The states of a list. -/
def ofList (states : List LexicalState) : StateSet := ⟨states.contains⟩

/-- One state. -/
def only (s : LexicalState) : StateSet := ofList [s]

/-- Before or behind an operand. -/
def code : StateSet := ofList [.expression, .operator]

/-- In an attribute value. -/
def attributeValue : StateSet := ofList [.apostropheValue, .quotedValue]

/-- Everywhere but in markup. -/
def outsideMarkup : StateSet := ⟨fun s => !s.isMarkup⟩

/-- The members, in the fixed order. -/
def toList (set : StateSet) : List LexicalState :=
  LexicalState.all.filter set.contains

end StateSet

/-- The state change that comes with a match. -/
inductive Transition where
  | stay
  | goto (state : LexicalState)
  /-- Go to `state` and come back to the present state. -/
  | push (state : LexicalState)
  /-- Go to `state` and come back to `resume`. -/
  | enter (state resume : LexicalState)
  /-- Come back. -/
  | pop
  deriving DecidableEq, Repr, Inhabited

/-- The active state and the states to come back to, innermost first. -/
structure StateStack where
  active : LexicalState
  saved : List LexicalState
  deriving DecidableEq, Repr, Inhabited

namespace StateStack

/-- A stack with nothing saved. -/
def ofState (s : LexicalState) : StateStack := ⟨s, []⟩

/-- The number of saved states. -/
def depth (stack : StateStack) : Nat := stack.saved.length

/-- Changes the active state. -/
def goto (stack : StateStack) (s : LexicalState) : StateStack :=
  { stack with active := s }

/-- Enters `s`, to come back to `resume`. -/
def push (stack : StateStack) (s resume : LexicalState) : StateStack :=
  ⟨s, resume :: stack.saved⟩

/-- Comes back to the state saved last, or to operator position if nothing is saved: that is where
a closed construct leaves the scanner outside markup. -/
def pop (stack : StateStack) : StateStack :=
  match stack.saved with
  | [] => ⟨.operator, []⟩
  | s :: saved => ⟨s, saved⟩

/-- Makes the state change of a match. -/
def apply (stack : StateStack) : Transition → StateStack
  | .stay => stack
  | .goto s => stack.goto s
  | .push s => stack.push s stack.active
  | .enter s resume => stack.push s resume
  | .pop => stack.pop

/-- Whether a state change comes back although nothing is saved. -/
def isStray (stack : StateStack) : Transition → Bool
  | .pop => stack.saved.isEmpty
  | _ => false

@[simp]
theorem pop_push (stack : StateStack) (s resume : LexicalState) :
    (stack.push s resume).pop = ⟨resume, stack.saved⟩ := rfl

@[simp]
theorem saved_goto (stack : StateStack) (s : LexicalState) : (stack.goto s).saved = stack.saved :=
  rfl

end StateStack

end XQuerySyntax
