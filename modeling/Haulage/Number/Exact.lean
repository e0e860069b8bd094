/-
# Floats as exact numbers

A finite float is a sign, a natural mantissa and a power of two, so every question about it that
has an exact answer -- its floor, its place among the integers, the fraction it equals -- is
answered in integer arithmetic. In the other direction `nearestQuotient` is the float nearest to a
fraction of naturals and `nearestRoot` the float nearest to the square root of one; both round only
once, ties going to the even mantissa.
-/

namespace Haulage

open Float.Model (UnpackedFloat Format)

/-- A fraction with a positive denominator, not necessarily in lowest terms. -/
structure Fraction where
  num : Int
  den : Nat
  den_pos : 0 < den := by omega

namespace Fraction

/-- The whole number as a fraction. -/
def ofInt (n : Int) : Fraction := ⟨n, 1, Nat.one_pos⟩

/-- The sum of two fractions. -/
def add (a b : Fraction) : Fraction :=
  ⟨a.num * b.den + b.num * a.den, a.den * b.den, Nat.mul_pos a.den_pos b.den_pos⟩

/-- The product of two fractions. -/
def mul (a b : Fraction) : Fraction :=
  ⟨a.num * b.num, a.den * b.den, Nat.mul_pos a.den_pos b.den_pos⟩

/-- The difference of two fractions. -/
def sub (a b : Fraction) : Fraction := a.add ⟨-b.num, b.den, b.den_pos⟩

/-- The fraction divided by a positive natural. -/
def divNat (a : Fraction) (n : Nat) (n_pos : 0 < n) : Fraction :=
  ⟨a.num, a.den * n, Nat.mul_pos a.den_pos n_pos⟩

end Fraction

/-- `n · 2^e`, the part after the point dropped toward minus infinity. -/
def scaledFloor (n e : Int) : Int :=
  if 0 ≤ e then n * Nat.pow 2 e.toNat else n / Nat.pow 2 (-e).toNat

/-- The fraction `n · 2^e`. -/
def scaledFraction (n e : Int) : Fraction :=
  if 0 ≤ e then ⟨n * Nat.pow 2 e.toNat, 1, Nat.one_pos⟩
  else ⟨n, Nat.pow 2 (-e).toNat, Nat.two_pow_pos _⟩

namespace Exact

/-- The fraction that a finite float equals. -/
def fraction? (x : Float) : Option Fraction :=
  match x.toModel.unpack with
  | .finite sign m e _ => some (scaledFraction (sign.apply m) e)
  | .zero _ => some (.ofInt 0)
  | _ => none

/-- The greatest integer that is not above a finite float. -/
def floor? (x : Float) : Option Int :=
  match x.toModel.unpack with
  | .finite sign m e _ => some (scaledFloor (sign.apply m) e)
  | .zero _ => some 0
  | _ => none

/-- The least integer that is not below a finite float. -/
def ceil? (x : Float) : Option Int := (floor? (-x)).map (- ·)

/-- The integer part of a finite float: the digits after the point are dropped. -/
def trunc? (x : Float) : Option Int := if x < 0 then ceil? x else floor? x

/-- The order of an integer and a float; a float that is not a number has none. -/
def compareInt (n : Int) (x : Float) : Option Ordering :=
  match x.toModel.unpack with
  | .finite sign m e _ =>
    let f := scaledFraction (sign.apply m) e
    some (compare (n * f.den) f.num)
  | .zero _ => some (compare n 0)
  | .infinity .positive => some .lt
  | .infinity .negative => some .gt
  | .notANumber => none

/-- Is the sign bit of the float set? It is for minus zero too. -/
def isNegative (x : Float) : Bool := x.toBits >>> 63 == 1

/-- The first float with the sign of the second. -/
def withSignOf (x y : Float) : Float := if isNegative x == isNegative y then x else -x

/-- The float nearest to an integer, where that is finite. -/
def ofInt? (n : Int) : Option Float :=
  let x := Float.ofInt n
  if x.isFinite then some x else none

end Exact

/-- The float nearest to `± num / den`; a numerator of zero gives a signed zero. -/
def nearestQuotient (negative : Bool) (num den : Nat) : Float :=
  let sign : UnpackedFloat.Sign := if negative then .negative else .positive
  if h : 0 < num ∧ 0 < den then
    .ofModel (.pack (.div .binary64 (.finite sign num 0 h.1) (.finite .positive den 0 h.2)))
  else .ofModel (.pack (.zero sign))

/-- The float nearest to a fraction. -/
def Fraction.nearest (f : Fraction) : Float := nearestQuotient (f.num < 0) f.num.natAbs f.den

/-- The number of binary digits of a natural. -/
def bitCount (n : Nat) : Nat := if n = 0 then 0 else n.log2 + 1

/-- The square root of `num / den` without its fractional part; a root that is not exact gets an
odd last digit, so that a later rounding sees on which side of a tie it lies. -/
def oddRoot (num den : Nat) : Nat :=
  let root := (num / den).sqrt
  if root * root * den = num then root else root ||| 1

/-- The float nearest to the square root of `num / den`. The root is taken with 109 binary digits
or more, twice as many as a float holds and three to spare. -/
def nearestRoot (num den : Nat) : Float :=
  let shift : Int := ((bitCount num : Int) - bitCount den - 109) / 2
  if 0 ≤ shift then
    nearestQuotient false (oddRoot num (den <<< (2 * shift.toNat)) <<< shift.toNat) 1
  else
    nearestQuotient false (oddRoot (num <<< (2 * (-shift).toNat)) den) (1 <<< (-shift).toNat)

end Haulage
