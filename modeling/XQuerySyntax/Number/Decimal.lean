/-!
Decimal numbers with a mantissa of at most 96 bits and a scale of at most 28: the value of
`⟨m, s⟩` is `m / 10 ^ s`. Reading rounds digits after the point that do not fit; a whole part that
does not fit is refused.
-/

namespace XQuerySyntax

/-- The non-negative decimal number `mantissa / 10 ^ scale`. -/
structure Decimal where
  mantissa : Nat
  scale : Nat
  deriving DecidableEq, Repr, Inhabited

namespace Decimal

/-- The first mantissa that is too large, `2 ^ 96`. -/
def mantissaBound : Nat := 1 <<< 96

/-- The largest scale. -/
def maxScale : Nat := 28

/-- The value of a decimal digit. -/
def digitValue (c : Char) : Nat := c.toNat - '0'.toNat

/-- The number written by a sequence of decimal digits. -/
def ofDigits (digits : List Char) : Nat :=
  digits.foldl (fun n c => 10 * n + digitValue c) 0

/-- Reads the digits of a whole number; a number that does not fit is refused. -/
def ofWhole (digits : List Char) : Option Decimal :=
  let n := ofDigits digits
  if n < mantissaBound then some ⟨n, 0⟩ else none

/-- Rounds a number half up by the first digit that does not fit. When the rounded mantissa itself
does not fit, one more place is given up; without a place to give up there is no result. -/
def roundBy (d : Decimal) (digit : Nat) : Option Decimal :=
  if digit < 5 then some d
  else if d.mantissa + 1 < mantissaBound then some { d with mantissa := d.mantissa + 1 }
  else if d.scale = 0 then none
  else some ⟨(d.mantissa + 1 + 4) / 10, d.scale - 1⟩

/-- Appends the digits after the point while they fit, then rounds by the next one. -/
def appendFraction (d : Decimal) : List Char → Option Decimal
  | [] => some d
  | c :: cs =>
    let next := 10 * d.mantissa + digitValue c
    if d.scale < maxScale ∧ next < mantissaBound then appendFraction ⟨next, d.scale + 1⟩ cs
    else d.roundBy (digitValue c)

/-- Drops zeros at the end of the fraction, with the scale as measure. -/
def stripZeros (mantissa : Nat) : Nat → Decimal
  | 0 => ⟨mantissa, 0⟩
  | scale + 1 =>
    if mantissa % 10 = 0 then stripZeros (mantissa / 10) scale else ⟨mantissa, scale + 1⟩

/-- The same number with the least scale. -/
def normalize (d : Decimal) : Decimal :=
  stripZeros d.mantissa d.scale

/-- Reads the digits before and after a point, without zeros at the end of the fraction. -/
def ofParts (whole fraction : List Char) : Option Decimal :=
  (ofWhole whole).bind fun d => (d.appendFraction fraction).map normalize

/-- Plain digits with as many places as the scale says. -/
def toText (d : Decimal) : String :=
  let digits := Nat.toDigits 10 d.mantissa
  if d.scale = 0 then String.ofList digits
  else
    let padded := List.replicate (d.scale + 1 - digits.length) '0' ++ digits
    String.ofList (padded.take (padded.length - d.scale) ++ '.' :: padded.drop (padded.length - d.scale))

end Decimal

end XQuerySyntax
