import XQuerySyntax.Lexeme.Scanned
import XQuerySyntax.Number.Binary64

/-!
Numeric literals. A numeral is digits with an optional point and an optional exponent; the longest
such text is taken, and a letter directly behind it is an error. Without point and exponent it is
an integer, with a point a decimal, with an exponent a double.
-/

namespace XQuerySyntax

/-- A constant in the text. -/
inductive Literal where
  | string (value : String)
  /-- At most `2 ^ 63 - 1`. -/
  | integer (value : Nat)
  | decimal (value : Decimal)
  | double (value : Binary64)
  deriving DecidableEq, Repr, Inhabited

/-- What kind of number a numeral denotes. -/
inductive NumeralKind where
  | integer
  | decimal
  | double
  deriving DecidableEq, Repr, Inhabited

/-- The parts of a numeral as written. -/
structure Numeral where
  /-- The digits before the point. -/
  whole : List Char
  /-- The digits after the point, if a point is written. -/
  fraction : Option (List Char)
  /-- The exponent mark, the sign if one is written, and the digits of the exponent. -/
  exponent : Option (Char × Option Char × List Char)
  deriving DecidableEq, Repr, Inhabited

namespace Numeral

/-- The kind of number. -/
def kind (n : Numeral) : NumeralKind :=
  if n.exponent.isSome then .double else if n.fraction.isSome then .decimal else .integer

/-- The numeral as written. -/
def text (n : Numeral) : List Char :=
  n.whole
    ++ (match n.fraction with
        | some digits => '.' :: digits
        | none => [])
    ++ (match n.exponent with
        | some (mark, sign, digits) => mark :: sign.toList ++ digits
        | none => [])

/-- The largest integer literal, `2 ^ 63 - 1`. -/
def maxInteger : Nat := 0x7FFFFFFFFFFFFFFF

/-- Why a numeral has no value. -/
inductive Overflow where
  | integer
  | decimal
  deriving DecidableEq, Repr

/-- The overflow in words. -/
def Overflow.message : Overflow → String
  | .integer => "integer literal exceeds the supported precision"
  | .decimal => "decimal literal exceeds the supported precision"

/-- The signed power of ten that the exponent part stands for. -/
def power : Option (Char × Option Char × List Char) → Int
  | none => 0
  | some (_, sign, digits) =>
    let n : Int := Decimal.ofDigits digits
    if sign = some '-' then -n else n

/-- The value of a numeral. Integers beyond 63 bits are decimals; decimals lose the zeros at their
end; doubles always have a value. -/
def value (n : Numeral) : Except Overflow Literal :=
  match n.kind with
  | .integer =>
    let i := Decimal.ofDigits n.whole
    if i ≤ maxInteger then .ok (.integer i)
    else
      match Decimal.ofWhole n.whole with
      | some d => .ok (.decimal d)
      | none => .error .integer
  | .decimal =>
    match Decimal.ofParts n.whole (n.fraction.getD []) with
    | some d => .ok (.decimal d)
    | none => .error .decimal
  | .double =>
    let fraction := n.fraction.getD []
    .ok (.double (Binary64.ofScientific (Decimal.ofDigits (n.whole ++ fraction))
      (power n.exponent - fraction.length)))

end Numeral

/-- The digits at the start of a text, and what follows them. -/
def scanDigits (text : List Char) : List Char × List Char :=
  (text.takeWhile Char.isDigit, text.dropWhile Char.isDigit)

/-- Digits with an optional point, at least one digit in all. -/
def scanMantissa (text : List Char) : Option (List Char × Option (List Char) × List Char) :=
  match scanDigits text with
  -- A point in front needs digits behind it.
  | ([], '.' :: rest) =>
    match scanDigits rest with
    | ([], _) => none
    | (fraction, rest') => some ([], some fraction, rest')
  | ([], _) => none
  | (whole, '.' :: rest) => some (whole, some (scanDigits rest).1, (scanDigits rest).2)
  | (whole, rest) => some (whole, none, rest)

/-- An exponent with at least one digit; anything less is not an exponent. -/
def scanExponent : List Char → Option (Char × Option Char × List Char) × List Char
  | [] => (none, [])
  | mark :: rest =>
    if mark = 'e' ∨ mark = 'E' then
      let signed : Option Char × List Char :=
        match rest with
        | '+' :: rest' => (some '+', rest')
        | '-' :: rest' => (some '-', rest')
        | _ => (none, rest)
      match scanDigits signed.2 with
      -- The mark is the start of a name, which the caller refuses.
      | ([], _) => (none, mark :: rest)
      | (digits, rest') => (some (mark, signed.1, digits), rest')
    else (none, mark :: rest)

/-- The longest numeral. A name-start character directly behind it is an error. -/
def scanNumeral (text : List Char) : Scanned Numeral :=
  match scanMantissa text with
  | none => .absent
  | some (whole, fraction, rest) =>
    let (exponent, rest') := scanExponent rest
    if rest'.head?.any isNameStart then .faulty .malformedNumber rest'
    else .found ⟨whole, fraction, exponent⟩ rest'

end XQuerySyntax
