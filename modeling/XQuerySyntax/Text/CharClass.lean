import XQuerySyntax.Text.Unicode

/-!
Character classes of the query language: which characters start and continue a name, which are
blank between tokens, and which a document may contain at all. A name starts with a letter or an
underscore; the classes of letters and digits are those of Unicode, not of ASCII.
-/

namespace XQuerySyntax

namespace Text

/-- The character lies in one of the ranges, ends included. -/
def inRanges (ranges : List (Nat × Nat)) (c : Char) : Bool :=
  ranges.any fun r => decide (r.1 ≤ c.toNat) && decide (c.toNat ≤ r.2)

/-- The ranges are in ascending order, with a gap between each and the next. -/
def areAscending : List (Nat × Nat) → Bool
  | [] => true
  | [r] => decide (r.1 ≤ r.2)
  | r :: s :: rest => decide (r.1 ≤ r.2) && decide (r.2 + 1 < s.1) && areAscending (s :: rest)

/-- The number of code points in the ranges. -/
def countOf (ranges : List (Nat × Nat)) : Nat :=
  ranges.foldl (fun n r => n + (r.2 + 1 - r.1)) 0

theorem areAscending_ranges : areAscending alphabeticRanges ∧ areAscending numericRanges := by
  decide +kernel

theorem countOf_ranges : countOf alphabeticRanges = 147369 ∧ countOf numericRanges = 1914 := by
  decide +kernel

/-- Letters of every script. -/
def isAlphabetic (c : Char) : Bool :=
  c.isAlpha || (decide (128 ≤ c.toNat) && inRanges alphabeticRanges c)

/-- Digits and other numeric characters of every script. -/
def isNumeric (c : Char) : Bool :=
  c.isDigit || (decide (128 ≤ c.toNat) && inRanges numericRanges c)

/-- The Unicode property `White_Space`. -/
def isSpace (c : Char) : Bool :=
  inRanges [(0x09, 0x0D), (0x20, 0x20), (0x85, 0x85), (0xA0, 0xA0), (0x1680, 0x1680),
    (0x2000, 0x200A), (0x2028, 0x2029), (0x202F, 0x202F), (0x205F, 0x205F), (0x3000, 0x3000)] c

end Text

/-- The characters that separate tokens: space, tab, line feed and carriage return. -/
def isBlank (c : Char) : Bool :=
  c == ' ' || c == '\t' || c == '\n' || c == '\r'

/-- A name starts with a letter or an underscore. -/
def isNameStart (c : Char) : Bool :=
  Text.isAlphabetic c || c == '_'

/-- A name continues with letters, digits, a few punctuation marks, combining diacritics and the
two tie characters. -/
def isNameChar (c : Char) : Bool :=
  Text.isAlphabetic c || Text.isNumeric c || c == '.' || c == '-' || c == '_' || c == '\u00B7'
    || Text.inRanges [(0x300, 0x36F), (0x203F, 0x2040)] c

/-- Code points that a document may contain. Surrogates, most control characters and the two
code points at the end of the basic plane are excluded. -/
def isXmlCodePoint (n : Nat) : Bool :=
  n == 0x9 || n == 0xA || n == 0xD || (decide (0x20 ≤ n) && decide (n ≤ 0xD7FF))
    || (decide (0xE000 ≤ n) && decide (n ≤ 0xFFFD))
    || (decide (0x10000 ≤ n) && decide (n ≤ 0x10FFFF))

/-- Number of bytes of the UTF-8 form of a text. -/
def byteLength (text : List Char) : Nat :=
  text.foldl (fun n c => n + c.utf8Size) 0

theorem foldl_utf8Size (n : Nat) (text : List Char) :
    text.foldl (fun n c => n + c.utf8Size) n = n + byteLength text := by
  induction text generalizing n with
  | nil => rfl
  | cons c cs ih =>
    have h : byteLength (c :: cs) = 0 + c.utf8Size + byteLength cs := ih (0 + c.utf8Size)
    rw [List.foldl_cons, ih, h]
    omega

@[simp]
theorem byteLength_nil : byteLength [] = 0 := rfl

@[simp]
theorem byteLength_cons (c : Char) (cs : List Char) :
    byteLength (c :: cs) = c.utf8Size + byteLength cs := by
  rw [byteLength, List.foldl_cons, Nat.zero_add, foldl_utf8Size]

@[simp]
theorem byteLength_append (s t : List Char) :
    byteLength (s ++ t) = byteLength s + byteLength t := by
  rw [byteLength, List.foldl_append, foldl_utf8Size, foldl_utf8Size, Nat.zero_add]

end XQuerySyntax
