/-
# Computing with values

The operations behind the operators of a formula. On two integers `add`, `subtract` and `multiply`
are exact; with a float among the operands they are the operations on floats. `divide` always gives
a float, for integers the one nearest to their quotient. Texts and lists are joined by `add` and
repeated by `multiply`.
-/
import Haulage.Value.Conversion
import Haulage.Number.Power

namespace Haulage

/-- A result of two operands that are numbers: exact on integers, else on floats. -/
def combine (exact : Int → Int → Int) (inexact : Float → Float → Float) (a b : Number) :
    Except ValueFault Number :=
  match a, b with
  | .int m, .int n => .ok (.int (exact m n))
  | a, b => do
    let x ← a.toFloat
    let y ← b.toFloat
    .ok (.float (inexact x y))

/-- The quotient of two integers as a float. -/
def divideIntegers (m n : Int) : Except ValueFault Float :=
  if n = 0 then .error (.divisionByZero false)
  else
    let q := nearestQuotient (decide (m < 0) != decide (n < 0)) m.natAbs n.natAbs
    if q.isFinite then .ok q else .error .quotientTooLarge

/-- The quotient of two numbers. -/
def divideNumbers (a b : Number) : Except ValueFault Float :=
  match a, b with
  | .int m, .int n => divideIntegers m n
  | a, b => do
    let x ← a.toFloat
    let y ← b.toFloat
    if y == 0 then .error (.divisionByZero true) else .ok (x / y)

/-- A list repeated a number of times; not at all for a negative number. -/
def repeatList {α : Type} (xs : List α) (count : Int) : List α :=
  (List.replicate count.toNat xs).flatten

namespace Value

/-- The least number of repetitions that is beyond any length. -/
def repetitionBound : Int := 9223372036854775808

/-- The sum of numbers, or texts or lists one after the other. -/
def add (a b : Value) : Except ValueFault Value :=
  match a.number?, b.number? with
  | some m, some n => (combine (· + ·) (· + ·) m n).map ofNumber
  | _, _ =>
    match a, b with
    | text s, text t => .ok (text (s ++ t))
    | list xs, list ys => .ok (list (xs ++ ys))
    | text _, _ | list _, _ => .error (.concatenation a.kind b.kind)
    | _, _ => .error (.operands "+" a.kind b.kind)

/-- The difference of numbers. -/
def subtract (a b : Value) : Except ValueFault Value :=
  match a.number?, b.number? with
  | some m, some n => (combine (· - ·) (· - ·) m n).map ofNumber
  | _, _ => .error (.operands "-" a.kind b.kind)

/-- A text or a list repeated. -/
def repeated (sequence count : Value) : Except ValueFault Value :=
  match count.number? with
  | some (.int n) =>
    if repetitionBound ≤ n ∨ n < -repetitionBound then .error .repetitionTooLarge
    else match sequence with
      | text s => .ok (text (repeatList s n))
      | list xs => .ok (list (repeatList xs n))
      | v => .ok v
  | _ => .error (.repetition count.kind)

/-- Is the value a text or a list? -/
def isSequence : Value → Bool
  | text _ | list _ => true
  | _ => false

/-- The product of numbers, or a text or a list repeated. -/
def multiply (a b : Value) : Except ValueFault Value :=
  match a.number?, b.number? with
  | some m, some n => (combine (· * ·) (· * ·) m n).map ofNumber
  | _, _ =>
    if a.isSequence then repeated a b
    else if b.isSequence then repeated b a
    else .error (.operands "*" a.kind b.kind)

/-- The quotient of numbers. -/
def divide (a b : Value) : Except ValueFault Value :=
  match a.number?, b.number? with
  | some m, some n => (divideNumbers m n).map float
  | _, _ => .error (.operands "/" a.kind b.kind)

/-- Is the value the number zero? -/
def isZeroNumber (v : Value) : Bool :=
  match v.number? with
  | some n => n.isZero
  | none => false

/-- What is left of the first value after taking the second from it as often as their quotient,
rounded toward minus infinity, says. -/
def modulo (a b : Value) : Except ValueFault Value := do
  if b.isZeroNumber then .error .zeroModulus
  else
    let quotient ← a.divide b
    let whole ← floorInteger (← quotient.toReal)
    a.subtract (← b.multiply (int whole))

/-- A power as the result of an operation. -/
def raised : Except PowerFault Float → Except ValueFault Value
  | .ok z => .ok (float z)
  | .error .outsideDomain => .error .outsideDomain
  | .error .tooLarge => .error .powerTooLarge

/-- The first value raised to the second, as floats. -/
def raise (a b : Value) : Except ValueFault Value := do
  let x ← a.toReal
  let y ← b.toReal
  raised (power x y)

/-- The value with the other sign. -/
def negate (v : Value) : Except ValueFault Value :=
  match v.number? with
  | some (.int n) => .ok (int (-n))
  | some (.float x) => .ok (float (-x))
  | none => .error (.unsigned "-" v.kind)

/-- The value with its own sign; truth values become integers. -/
def affirm (v : Value) : Except ValueFault Value :=
  match v.number? with
  | some n => .ok (ofNumber n)
  | none => .error (.unsigned "+" v.kind)

/-- The value without its sign. -/
def absolute (v : Value) : Except ValueFault Value :=
  match v.number? with
  | some (.int n) => .ok (int n.natAbs)
  | some (.float x) => .ok (float x.abs)
  | none => .error (.sizeless v.kind)

end Value

end Haulage
