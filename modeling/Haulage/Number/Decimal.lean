/-
# Decimal values

A decimal value keeps every digit it was written with, trailing zeros too: it is a sign, a natural
coefficient and a power of ten. Besides the finite ones there are two infinities and values that
stand for no number, quiet or signaling, which may carry a row of digits.
-/
import Haulage.Number.Notation
import Haulage.Number.Reader

namespace Haulage

/-- A decimal value. -/
inductive Decimal
  | finite (negative : Bool) (size : Scientific)
  | infinite (negative : Bool)
  | notANumber (negative signaling : Bool) (payload : Text)
deriving DecidableEq

namespace Decimal

/-- The text of a sign: nothing for plus. -/
def signText (negative : Bool) : Text := if negative then ['-'] else []

/-- The text of a decimal value. -/
def write : Decimal → Text
  | finite negative size => signText negative ++ decimalNotation.write size
  | infinite negative => signText negative ++ "Infinity".toList
  | notANumber negative signaling payload =>
    signText negative ++ (if signaling then "sNaN" else "NaN").toList ++ payload

/-- The payload that follows the word for no number: digits, leading zeros dropped. -/
def readPayload? (s : Text) : Option Text :=
  match spanDigits s with
  | ([], []) => some []
  | (ds, []) => some (if digitsValue ds == 0 then [] else digitsOf (digitsValue ds))
  | _ => none

/-- The word in front of a text, up to the case of ASCII letters, taken off it. -/
def dropWord? (word : String) (s : Text) : Option Text :=
  if isWord word (s.take word.length) then some (s.drop word.length) else none

/-- The decimal value that a text stands for. Underscores are passed over. -/
def read? (s : Text) : Option Decimal :=
  match splitSign (s.strip.filter (· != '_')) with
  | (negative, s) =>
    if isWord "inf" s || isWord "infinity" s then some (infinite negative)
    else match dropWord? "nan" s with
      | some rest => (readPayload? rest).map (notANumber negative false)
      | none => match dropWord? "snan" s with
        | some rest => (readPayload? rest).map (notANumber negative true)
        | none => (readDecimal? s).map (finite negative)

/-- The float nearest to a decimal value; a signaling value that is no number has none. -/
def toFloat? : Decimal → Option Float
  | finite negative size => some (if negative then -size.toFloat else size.toFloat)
  | infinite negative => some (if negative then -(1.0 / 0.0) else 1.0 / 0.0)
  | notANumber _ signaling _ => if signaling then none else some (0.0 / 0.0)

/-- The integer part of a finite decimal value. -/
def trunc? : Decimal → Option Int
  | finite negative size =>
    let f := size.toFraction
    let whole := f.num / f.den
    some (if negative then -whole else whole)
  | _ => none

/-- Is the value zero? -/
def isZero : Decimal → Bool
  | finite _ size => size.coefficient == 0
  | _ => false

end Decimal

end Haulage
