import XQuerySyntax.Lexeme.Scanned
import XQuerySyntax.Number.Decimal

/-!
Character references and string literals. A reference is one of five named ones, or a code point in
decimal or hexadecimal digits, which has to be one that a document may contain. A literal stands
between two equal quotes; the quote itself is written twice, and references stand for characters.
-/

namespace XQuerySyntax

/-- ASCII hexadecimal digits, of either case. -/
def isHexDigit (c : Char) : Bool :=
  c.isDigit || (decide ('a' ≤ c) && decide (c ≤ 'f')) || (decide ('A' ≤ c) && decide (c ≤ 'F'))

/-- The value of a hexadecimal digit. -/
def hexDigitValue (c : Char) : Nat :=
  if c.isDigit then c.toNat - '0'.toNat
  else if 'a' ≤ c then c.toNat - 'a'.toNat + 10
  else c.toNat - 'A'.toNat + 10

/-- The number written by a sequence of hexadecimal digits. -/
def ofHexDigits (digits : List Char) : Nat :=
  digits.foldl (fun n c => 16 * n + hexDigitValue c) 0

/-- The character of a code point, if a document may contain it. -/
def charOfCodePoint (n : Nat) : Except LexicalFault Char :=
  if isXmlCodePoint n then .ok (Char.ofNat n) else .error .illegalCharacter

/-- The character meant by the text between the ampersand and the semicolon. -/
def referencedChar (body : List Char) : Except LexicalFault Char :=
  if body = "lt".toList then .ok '<'
  else if body = "gt".toList then .ok '>'
  else if body = "amp".toList then .ok '&'
  else if body = "quot".toList then .ok '"'
  else if body = "apos".toList then .ok '\''
  else
    match body with
    | '#' :: 'x' :: digits =>
      if !digits.isEmpty && digits.all isHexDigit then charOfCodePoint (ofHexDigits digits)
      else .error .malformedReference
    | '#' :: digits =>
      if !digits.isEmpty && digits.all Char.isDigit then
        charOfCodePoint (Decimal.ofDigits digits)
      else .error .malformedReference
    | _ => .error .unknownEntity

/-- Characters that may stand between the ampersand and the semicolon. -/
def isReferenceChar (c : Char) : Bool :=
  c != ';' && c != '&' && !Text.isSpace c

/-- A reference. Once the ampersand is read, anything else is an error at the ampersand. -/
def scanReference : List Char → Scanned Char
  | '&' :: cs =>
    match cs.takeWhile isReferenceChar, cs.dropWhile isReferenceChar with
    | c :: body, ';' :: rest =>
      match referencedChar (c :: body) with
      | .ok value => .found value rest
      | .error fault => .faulty fault ('&' :: cs)
    | _, _ => .faulty .malformedReference ('&' :: cs)
  | _ => .absent

/-- What is left behind a reference is shorter. -/
theorem length_of_scanReference {text rest : List Char} {c : Char}
    (h : scanReference text = .found c rest) : rest.length < text.length := by
  unfold scanReference at h
  split at h
  · rename_i cs
    split at h
    · rename_i body rest' _ hr
      have hle : (cs.dropWhile isReferenceChar).length ≤ cs.length :=
        (List.dropWhile_sublist isReferenceChar).length_le
      rw [hr] at hle
      split at h
      · cases h
        simp only [List.length_cons] at hle ⊢
        omega
      · cases h
    · cases h
  · cases h

/-! ### String literals -/

/-- The characters of a literal up to its closing quote; absent when the text ends first. -/
def scanStringBody (quote : Char) (text : List Char) : Scanned (List Char) :=
  match text with
  | [] => .absent
  | c :: cs =>
    if c = '&' then
      match h : scanReference (c :: cs) with
      | .found value rest =>
        have := length_of_scanReference h
        (scanStringBody quote rest).map (value :: ·)
      | .absent => .absent
      | .faulty fault place => .faulty fault place
    else if c = quote then
      match cs with
      | [] => .found [] []
      | d :: ds =>
        if d = quote then (scanStringBody quote ds).map (quote :: ·) else .found [] (d :: ds)
    else (scanStringBody quote cs).map (c :: ·)
termination_by text.length
decreasing_by
  all_goals
    simp only [List.length_cons] at *
    omega

/-- A quoted literal with its quotes removed and its references resolved. An open literal is an
error at its opening quote. -/
def scanStringLiteral : List Char → Scanned String
  | [] => .absent
  | c :: cs =>
    if c = '"' ∨ c = '\'' then
      match scanStringBody c cs with
      | .found value rest => .found (String.ofList value) rest
      | .absent => .faulty (.unterminated "string literal") (c :: cs)
      | .faulty fault place => .faulty fault place
    else .absent

end XQuerySyntax
