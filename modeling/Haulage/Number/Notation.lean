/-
# Writing numbers

A decimal `c · 10^k` is written positionally or with an exponent. Where the point stands and when an
exponent is used are choices of a `NumberNotation`, and there are two: `floatNotation` for floats and
`decimalNotation` for decimal values, which keep their trailing zeros.
-/
import Haulage.Number.Shortest
import Haulage.Text.Basic

namespace Haulage

/-- The decimal digits of a natural. -/
def digitsOf (n : Nat) : Text := Nat.toDigits 10 n

/-- The decimal digits of an integer, with a minus sign in front of a negative one. -/
def integerText (n : Int) : Text :=
  if n < 0 then '-' :: digitsOf n.natAbs else digitsOf n.natAbs

/-- How decimals are written. -/
structure NumberNotation where
  /-- Is the decimal with this exponent, whose point stands after this many digits, written
  without an exponent? -/
  positional : (exponent place : Int) → Bool
  /-- Does a whole number written positionally end in `.0`? -/
  wholeGetsPoint : Bool
  /-- The mark in front of an exponent. -/
  mark : Char
  /-- The least number of digits of an exponent. -/
  exponentDigits : Nat

namespace NumberNotation

/-- The digits with a point after `place` of them, zeros filling the gap to the point. -/
def pointed (style : NumberNotation) (digits : Text) (place : Int) : Text :=
  if place ≤ 0 then
    '0' :: '.' :: (List.replicate (-place).toNat '0' ++ digits)
  else if digits.length ≤ place then
    digits ++ List.replicate (place.toNat - digits.length) '0' ++
      (if style.wholeGetsPoint then ['.', '0'] else [])
  else digits.take place.toNat ++ '.' :: digits.drop place.toNat

/-- The mark, sign and digits of an exponent. -/
def exponentPart (style : NumberNotation) (e : Int) : Text :=
  let digits := digitsOf e.natAbs
  style.mark :: (if e < 0 then '-' else '+') ::
    (List.replicate (style.exponentDigits - digits.length) '0' ++ digits)

/-- The text of `c · 10^k`. -/
def write (style : NumberNotation) (d : Scientific) : Text :=
  let digits := digitsOf d.coefficient
  let place := d.exponent + digits.length
  if style.positional d.exponent place then style.pointed digits place
  else
    (match digits with
      | [] => []
      | [c] => [c]
      | c :: cs => c :: '.' :: cs) ++ style.exponentPart (place - 1)

end NumberNotation

/-- Floats are written positionally from `0.0001` up to below `10^16`, and a whole one ends in
`.0`. -/
def floatNotation : NumberNotation where
  positional _ place := -4 < place && place ≤ 16
  wholeGetsPoint := true
  mark := 'e'
  exponentDigits := 2

/-- Decimal values are written positionally unless digits are missing in front of the point or more
than five zeros would follow it. -/
def decimalNotation : NumberNotation where
  positional exponent place := exponent ≤ 0 && -6 < place
  wholeGetsPoint := false
  mark := 'E'
  exponentDigits := 1

/-- The text of a float: the shortest decimal that reads back. -/
def floatText (x : Float) : Text :=
  if x.isNaN then "nan".toList
  else
    let size := if x.isInf then "inf".toList else floatNotation.write (shortest x)
    if Exact.isNegative x then '-' :: size else size

/-- The text of a float in a formula: a whole number below `10^16` has no point. -/
def numberText (x : Float) : Text :=
  match Exact.fraction? x with
  | some f =>
    if f.num % f.den == 0 && x.abs < 1e16 then integerText (f.num / f.den) else floatText x
  | none => floatText x

end Haulage
