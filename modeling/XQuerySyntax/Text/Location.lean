/-!
Lines and columns. A location is one-based, and columns count characters, not bytes. The location
of a byte offset is found by walking the text; an offset inside a character has the location of
that character, and an offset past the end has the location of the end.
-/

namespace XQuerySyntax

/-- A one-based line and column. -/
structure Location where
  line : Nat
  column : Nat
  deriving DecidableEq, Repr

namespace Location

/-- Where a text begins. -/
def start : Location := ⟨1, 1⟩

/-- The location after one more character. -/
def advance (l : Location) (c : Char) : Location :=
  if c = '\n' then ⟨l.line + 1, 1⟩ else ⟨l.line, l.column + 1⟩

/-- Walks over the characters that lie wholly within the first `bytes` bytes. -/
def walk : List Char → Nat → Location → Location
  | [], _, l => l
  | c :: cs, bytes, l =>
    if c.utf8Size ≤ bytes then walk cs (bytes - c.utf8Size) (l.advance c) else l

/-- The location of a byte offset in a text. -/
def ofOffset (text : String) (offset : Nat) : Location :=
  walk text.toList offset start

/-- The location in words. -/
def describe (l : Location) : String :=
  "line " ++ toString l.line ++ ", column " ++ toString l.column

end Location

end XQuerySyntax
