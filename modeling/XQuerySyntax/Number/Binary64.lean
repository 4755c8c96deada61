import XQuerySyntax.Number.Decimal

/-!
Double-precision numbers by their bits. A decimal number is rounded to the nearest double, an
exact tie to the one with the even significand; a number too large for the format is infinity.
The shortest decimal digits of a double are the fewest that read back as the same number, and of
those the ones nearest to it. All arithmetic is exact, on natural numbers.
-/

namespace XQuerySyntax

/-- A double-precision number, held as its 64 bits. -/
structure Binary64 where
  bits : UInt64
  deriving DecidableEq, Repr, Inhabited

namespace Binary64

/-- Zero. -/
def zero : Binary64 := ⟨0⟩

/-- Positive infinity. -/
def infinity : Binary64 := ⟨0x7FF0000000000000⟩

/-- The quotient `num / den` rounded to the nearest integer, a tie to the even one. -/
def divideToEven (num den : Nat) : Nat :=
  let quotient := num / den
  let twice := 2 * (num % den)
  if twice < den then quotient
  else if twice > den then quotient + 1
  else quotient + quotient % 2

/-- The quotient `num / (den * 2 ^ exponent)` rounded to the nearest integer. -/
def scaledToEven (num den : Nat) (exponent : Int) : Nat :=
  if exponent < 0 then divideToEven (num <<< exponent.natAbs) den
  else divideToEven num (den <<< exponent.natAbs)

/-- The largest `e` with `2 ^ e * den ≤ num`, for positive arguments. -/
def floorLog2 (num den : Nat) : Int :=
  let estimate : Int := (Nat.log2 num : Int) - (Nat.log2 den : Int)
  let reaches : Bool :=
    if estimate < 0 then decide (den ≤ num <<< estimate.natAbs)
    else decide (den <<< estimate.natAbs ≤ num)
  if reaches then estimate else estimate - 1

/-- The double nearest to the positive quotient `num / den`. The unit in the last place is a power
of two, at least `2 ^ -1074`; counting units from zero gives the bits directly, since the step from
one binade to the next is again one unit. -/
def ofQuotient (num den : Nat) : Binary64 :=
  let exponent := max (-1074) (floorLog2 num den - 52)
  let bits := ((exponent + 1074).toNat <<< 52) + scaledToEven num den exponent
  if bits < infinity.bits.toNat then ⟨UInt64.ofNat bits⟩ else infinity

/-- The double nearest to `mantissa * 10 ^ exponent`. Numbers below `10 ^ -330` are zero and those
from `10 ^ 310` on are infinite, so no large power is ever computed. -/
def ofScientific (mantissa : Nat) (exponent : Int) : Binary64 :=
  if mantissa = 0 then zero
  else
    let magnitude := exponent + (Nat.toDigits 10 mantissa).length
    if magnitude > 310 then infinity
    else if magnitude < -330 then zero
    else if exponent < 0 then ofQuotient mantissa (Nat.pow 10 exponent.natAbs)
    else ofQuotient (mantissa * Nat.pow 10 exponent.natAbs) 1

end Binary64

/-! ### The shortest digits

A double is `m * 2 ^ q`; the numbers that round to it form an interval around it, whose ends belong
to it if `m` is even. -/

namespace Binary64

/-- The digits `digits` stand for `digits * 10 ^ exponent`. -/
structure Digits where
  digits : Nat
  exponent : Int
  deriving DecidableEq, Repr

/-- The 52 bits behind the point of the significand. -/
def fraction (x : Binary64) : Nat := x.bits.toNat % (1 <<< 52)

/-- The number of the interval between two powers of two that the number lies in; the 11 bits in
front of the fraction. -/
def binade (x : Binary64) : Nat := (x.bits.toNat >>> 52) % 2048

/-- Whether the number is finite. -/
def isFinite (x : Binary64) : Bool := x.binade ≠ 2047

/-- The significand and the power of two of a finite number without its sign. -/
def parts (x : Binary64) : Nat × Int :=
  if x.binade = 0 then (x.fraction, -1074)
  else (x.fraction + (1 <<< 52), (x.binade : Int) - 1075)

/-- Whether a decimal reads back as the number. -/
def readsBack (x : Binary64) (d : Digits) : Bool :=
  ofScientific d.digits d.exponent == x

/-- The quotient of `m * 2 ^ q` and `10 ^ e`, as a numerator and a denominator. -/
def onGrid (m : Nat) (q e : Int) : Nat × Nat :=
  ((m <<< q.toNat) * Nat.pow 10 (-e).toNat, (1 <<< (-q).toNat) * Nat.pow 10 e.toNat)

/-- The better of the two neighbours of `m * 2 ^ q` among the multiples of `10 ^ e`, if one of them
reads back. -/
def neighbour? (x : Binary64) (m : Nat) (q e : Int) : Option Digits :=
  let (num, den) := onGrid m q e
  let low : Digits := ⟨num / den, e⟩
  let high : Digits := ⟨num / den + 1, e⟩
  -- The nearer neighbour is asked first, so it wins if both read back.
  let nearer := if divideToEven num den = low.digits then [low, high] else [high, low]
  nearer.find? x.readsBack

/-- The number of digits in front of the point of a positive quotient, zero or less for a quotient
below one. -/
def magnitude (num den : Nat) : Int :=
  if den ≤ num then (Nat.toDigits 10 (num / den)).length
  else 1 - ((Nat.toDigits 10 (den / num)).length : Int)

/-- The shortest digits of a positive finite number. Seventeen always suffice. -/
def shortest (x : Binary64) : Digits :=
  let (m, q) := x.parts
  let (num, den) := onGrid m q 0
  let places := magnitude num den
  let tries := (List.range 18).map fun (n : Nat) => places - (n : Int)
  match tries.findSome? (neighbour? x m q) with
  | some d => d
  | none => ⟨0, 0⟩

/-- Digits with the point behind the first `n` of them. -/
def withPoint (digits : List Char) (n : Nat) : List Char :=
  digits.take n ++ '.' :: digits.drop n

/-- Positional notation from `10 ^ -5` up to below `10 ^ 16`, with at least one digit on each side
of the point; scientific notation otherwise. -/
def textOf (digits : List Char) (exponent : Int) : List Char :=
  let count : Int := digits.length
  let point := count + exponent
  if 0 ≤ exponent ∧ point ≤ 16 then digits ++ List.replicate exponent.toNat '0' ++ ['.', '0']
  else if 0 < point ∧ point ≤ 16 then withPoint digits point.toNat
  else if -5 < point ∧ point ≤ 0 then '0' :: '.' :: List.replicate (-point).toNat '0' ++ digits
  else
    let power := point - 1
    (if digits.length = 1 then digits else withPoint digits 1)
      ++ 'e' :: (if power < 0 then ['-'] else []) ++ Nat.toDigits 10 power.natAbs

/-- The text of a finite number that is not negative. -/
def toText (x : Binary64) : String :=
  if x = zero then "0.0"
  else
    let d := x.shortest
    String.ofList (textOf (Nat.toDigits 10 d.digits) d.exponent)

end Binary64

end XQuerySyntax
