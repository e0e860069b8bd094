/-
# Turning values into numbers

Truth values count as the integers one and zero wherever a number is wanted. `toReal` and
`toInteger` say what becomes of every other kind.
-/
import Haulage.Value.Fault
import Haulage.Number.Basic

namespace Haulage

/-- The float nearest to a number. -/
def Number.toFloat (n : Number) : Except ValueFault Float :=
  match n.toFloat? with
  | some x => .ok x
  | none => .error .integerTooLarge

/-- The integer part of a float. -/
def truncate (x : Float) : Except ValueFault Int :=
  match Exact.trunc? x with
  | some n => .ok n
  | none => .error (if x.isNaN then .undefinedFloat else .infiniteFloat)

/-- The greatest integer not above a float. -/
def floorInteger (x : Float) : Except ValueFault Int :=
  match Exact.floor? x with
  | some n => .ok n
  | none => .error (if x.isNaN then .undefinedFloat else .infiniteFloat)

/-- The least integer not below a float. -/
def ceilInteger (x : Float) : Except ValueFault Int :=
  match Exact.ceil? x with
  | some n => .ok n
  | none => .error (if x.isNaN then .undefinedFloat else .infiniteFloat)

/-- The integer part of a decimal. -/
def truncateDecimal (d : Decimal) : Except ValueFault Int :=
  match d with
  | .finite .. => .ok (d.trunc?.getD 0)
  | .infinite _ => .error .infiniteDecimal
  | .notANumber .. => .error .undefinedDecimal

/-- The float nearest to a decimal. -/
def decimalToFloat (d : Decimal) : Except ValueFault Float :=
  match d.toFloat? with
  | some x => .ok x
  | none => .error .signalingDecimal

/-- The integer that a text stands for. -/
def textToInteger (s : Text) : Except ValueFault Int :=
  match integerDigits? s with
  | none => .error (.malformedInteger s)
  | some (negative, digits) =>
    if ValueFault.mostDigits < digits.length then .error (.tooManyDigitsToRead digits.length)
    else .ok (if negative then -(digitsValue digits : Int) else digitsValue digits)

namespace Value

/-- The number that a value is. -/
def number? : Value → Option Number
  | bool b => some (.int (if b then 1 else 0))
  | int n => some (.int n)
  | float x => some (.float x)
  | _ => none

/-- A number as a value. -/
def ofNumber : Number → Value
  | .int n => int n
  | .float x => float x

/-- The float that a value counts as where a real number is wanted. -/
def toReal (v : Value) : Except ValueFault Float :=
  match v.number?, v with
  | some n, _ => n.toFloat
  | none, decimal d => decimalToFloat d
  | none, v => .error (.notReal v.kind)

/-- The integer that a value counts as where one is wanted. -/
def toInteger : Value → Except ValueFault Int
  | bool b => .ok (if b then 1 else 0)
  | int n => .ok n
  | float x => truncate x
  | text s => textToInteger s
  | decimal d => truncateDecimal d
  | v => .error (.notInteger v.kind)

@[simp] theorem number?_ofNumber (n : Number) : (ofNumber n).number? = some n := by
  cases n <;> rfl

end Value

end Haulage
