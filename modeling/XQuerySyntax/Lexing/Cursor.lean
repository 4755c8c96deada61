import XQuerySyntax.Text.CharClass

/-!
A position in a text. The position is held by the text that remains, so it always lies between two
characters; its byte offset is what the whole text has more.
-/

namespace XQuerySyntax

/-- A text and what remains of it. -/
structure Cursor where
  /-- The byte length of the whole text. -/
  size : Nat
  source : List Char
  rest : List Char

namespace Cursor

/-- The start of a text. -/
def ofText (text : String) : Cursor :=
  ⟨byteLength text.toList, text.toList, text.toList⟩

instance : Inhabited Cursor := ⟨ofText ""⟩

/-- The byte offset of a place given by the text that remains there. -/
def offsetOf (c : Cursor) (rest : List Char) : Nat :=
  c.size - byteLength rest

/-- The byte offset of the position. -/
def pos (c : Cursor) : Nat := c.offsetOf c.rest

/-- No text remains. -/
def atEnd (c : Cursor) : Bool := c.rest.isEmpty

/-- The character `n` places further on. -/
def peek? (c : Cursor) (n : Nat) : Option Char := c.rest[n]?

/-- The next character. -/
def current? (c : Cursor) : Option Char := c.rest.head?

/-- Moves to a place given by the text that remains there. -/
def moveTo (c : Cursor) (rest : List Char) : Cursor := { c with rest }

/-- Moves over one character. -/
def advance (c : Cursor) : Cursor := c.moveTo c.rest.tail

/-- Drops characters that lie within the first `bytes` bytes. -/
def dropBytes : Nat → List Char → List Char
  | _, [] => []
  | bytes, c :: cs => if c.utf8Size ≤ bytes then dropBytes (bytes - c.utf8Size) cs else c :: cs

/-- Moves to a byte offset, at most to the end. -/
def reset (c : Cursor) (offset : Nat) : Cursor := c.moveTo (dropBytes offset c.source)

/-- Moves on by a number of bytes. -/
def advanceBy (c : Cursor) (bytes : Nat) : Cursor := c.reset (c.pos + bytes)

/-- The beginning of a text, for messages. -/
def excerptOf (rest : List Char) : String :=
  if rest.isEmpty then "end of input" else "'" ++ String.ofList (rest.take 20) ++ "'"

/-- The beginning of the text that remains. -/
def excerpt (c : Cursor) : String := excerptOf c.rest

end Cursor

end XQuerySyntax
