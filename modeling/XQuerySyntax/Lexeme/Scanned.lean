import XQuerySyntax.Text.CharClass

/-!
What a scanner answers. A scanner looks at the text from the current position on: it finds its
lexeme and says what text is left, or the lexeme is absent, or the text is malformed, which ends
the parse. Positions are given by the text that remains from there on.
-/

namespace XQuerySyntax

/-- Why a lexeme is malformed. -/
inductive LexicalFault where
  /-- The named construct is still open at the end of the text. -/
  | unterminated (construct : String)
  | malformedNumber
  | malformedReference
  | unknownEntity
  /-- A reference to a code point that no document may contain. -/
  | illegalCharacter
  /-- A closing brace in markup that is not doubled. -/
  | loneBrace
  | lessThanInAttribute
  | doubleHyphenInComment
  | missingSpaceAfterName
  deriving DecidableEq, Repr

namespace LexicalFault

/-- The fault in words. -/
def message : LexicalFault → String
  | unterminated construct => "unterminated " ++ construct
  | malformedNumber => "invalid character in numeric literal"
  | malformedReference => "malformed character reference"
  | unknownEntity => "unknown entity reference"
  | illegalCharacter => "character reference to a character that is not allowed in XML"
  | loneBrace => "'\x7d' must be written as '\x7d\x7d' in markup"
  | lessThanInAttribute => "'<' is not allowed in an attribute value"
  | doubleHyphenInComment => "'--' is not allowed inside an XML comment"
  | missingSpaceAfterName => "whitespace expected after name"

end LexicalFault

/-- The answer of a scanner. -/
inductive Scanned (α : Type) where
  | found (value : α) (rest : List Char)
  | absent
  /-- Malformed from `place` on. -/
  | faulty (fault : LexicalFault) (place : List Char)
  deriving Repr

namespace Scanned

/-- Changes the value of a lexeme that was found. -/
def map {α β : Type} (f : α → β) : Scanned α → Scanned β
  | found a rest => found (f a) rest
  | absent => absent
  | faulty fault place => faulty fault place

/-- Text that contains `terminator`, cut at its first occurrence: the text before and after. -/
def splitAt? (terminator : List Char) : List Char → Option (List Char × List Char)
  | [] => if terminator.isEmpty then some ([], []) else none
  | c :: cs =>
    if terminator.isPrefixOf (c :: cs) then some ([], (c :: cs).drop terminator.length)
    else (splitAt? terminator cs).map fun (body, rest) => (c :: body, rest)

/-- A text is what stands before the terminator, the terminator, and what follows. -/
theorem eq_append_of_splitAt? {terminator text body rest : List Char}
    (h : splitAt? terminator text = some (body, rest)) : text = body ++ terminator ++ rest := by
  induction text generalizing body with
  | nil =>
    rw [splitAt?] at h
    split at h
    · rename_i he
      cases h
      simp [List.isEmpty_iff.1 he]
    · cases h
  | cons c cs ih =>
    rw [splitAt?] at h
    split at h
    · rename_i hp
      cases h
      obtain ⟨rest, hr⟩ := List.isPrefixOf_iff_prefix.1 hp
      rw [← hr, List.drop_left, List.nil_append]
    · obtain ⟨⟨b, r⟩, hs, he⟩ := Option.map_eq_some_iff.1 h
      cases he
      rw [ih hs]
      rfl

end Scanned

end XQuerySyntax
