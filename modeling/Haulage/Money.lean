/-
# Amounts of money

An amount is rounded to two places as it is written: of the shortest decimal that reads back, a half
goes away from zero. What is not finite, or has more digits than an account can hold, counts as
nothing. `toAmount?` is the finite number that a value supplied by a caller says.
-/
import Haulage.Value.Conversion

namespace Haulage

/-- A natural divided by a power of ten, a half rounded up. -/
def roundedQuotient (n places : Nat) : Nat := (2 * n + Nat.pow 10 places) / (2 * Nat.pow 10 places)

/-- The cents of an unsigned decimal, a half rounded up. -/
def centsOf (d : Scientific) : Nat :=
  let shift := d.exponent + 2
  if 0 ≤ shift then d.coefficient * Nat.pow 10 shift.toNat
  else roundedQuotient d.coefficient (-shift).toNat

/-- The number of digits that an amount in cents has less than. -/
def mostCentDigits : Nat := 28

/-- A float as an amount of money. -/
def roundMoney (x : Float) : Float :=
  if x.isFinite then
    let cents := centsOf (shortest x)
    if cents = 0 ∨ Nat.pow 10 mostCentDigits ≤ cents then 0
    else
      let size := (Scientific.mk cents (-2)).toFloat
      if x < 0 then -size else size
  else 0

namespace Value

/-- A value as an amount of money; null is none. -/
def roundMoney (v : Value) : Except ValueFault Float :=
  if v.isNull then .ok 0 else v.toReal.map Haulage.roundMoney

/-- The float, if it is finite. -/
def finite? (x : Float) : Option Float := if x.isFinite then some x else none

/-- The finite number that a value says. A text may have a comma for the point. -/
def toAmount? : Value → Except ValueFault (Option Float)
  | bool b => .ok (some (if b then 1 else 0))
  | int n => (Number.int n).toFloat.map finite?
  | float x => .ok (finite? x)
  | text s => .ok ((readFloat? (s.strip.replaceChar ',' '.')).bind finite?)
  | _ => .ok none

/-- The finite number that a value says, or zero. -/
def toAmount (v : Value) : Except ValueFault Float := v.toAmount?.map (·.getD 0)

end Value

end Haulage
