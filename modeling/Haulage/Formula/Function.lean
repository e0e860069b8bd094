/-
# The functions of formulas

The seventeen functions that a formula may call, by their names in small letters. `Function.apply`
checks the number of arguments and computes the result. The functions that take any number of
arguments take a single list in their place.
-/
import Haulage.Formula.Fault
import Haulage.Value.Statistics

namespace Haulage

/-- The functions that a formula may call. -/
inductive Function
  | add | subtract | multiply | divide | pow | sqrt | round | max | min | abs | ceil | floor
  | mean | median | std | sum | mod
deriving DecidableEq, Repr

namespace Function

/-- All functions, in the order in which they are listed. -/
def all : List Function :=
  [add, subtract, multiply, divide, pow, sqrt, round, max, min, abs, ceil, floor, mean, median,
    std, sum, mod]

/-- The name of a function. -/
def name : Function → String
  | add => "add"
  | subtract => "subtract"
  | multiply => "multiply"
  | divide => "divide"
  | pow => "pow"
  | sqrt => "sqrt"
  | round => "round"
  | max => "max"
  | min => "min"
  | abs => "abs"
  | ceil => "ceil"
  | floor => "floor"
  | mean => "mean"
  | median => "median"
  | std => "std"
  | sum => "sum"
  | mod => "mod"

/-- The function with a name. -/
def ofName? (name : Text) : Option Function := all.find? fun f => f.name.toList == name

/-- The list of functions is complete. -/
theorem mem_all (f : Function) : f ∈ all := by cases f <;> decide

/-- The ten to the power of a number of places, as a float. -/
def tenToThe (places : Int) : Float := (Scientific.mk 1 places).toFloat

/-- A float rounded to a whole number of places after the point, halves away from zero: its size is
shifted by the places, a half is added, what stands after the point is dropped, and the places are
shifted back. -/
def roundPlaces (size : Float) (places : Int) : Except ValueFault Float := do
  let factor := tenToThe places
  let whole ← floorInteger (size * factor + 0.5)
  let whole ← (Number.int whole).toFloat
  .ok (whole / factor)

/-- The whole number of places that a value says, if it says one that is not too far off. -/
def places? (v : Value) : Except Fault Int := do
  let size ← liftValue v.absolute
  if ← liftValue (size.related .greater (.int FormulaFault.mostPlaces)) then
    .error (.formula .roundingPlaces)
  else
    let n ← liftValue v.toInteger
    if v.equals (.int n) then .ok n else .error (.formula .roundingPlaces)

/-- A value rounded to a number of places, halves away from zero. The result has the sign of the
value unless it is zero. -/
def roundTo (v places : Value) : Except Fault Value := do
  let places ← places? places
  let size ← liftValue v.absolute
  let size ← liftValue size.toReal
  let rounded ← liftValue (roundPlaces size places)
  if rounded == 0 then .ok (.float 0)
  else
    let x ← liftValue v.toReal
    .ok (.float (Exact.withSignOf rounded x))

/-- The square root of a value. -/
def squareRoot (v : Value) : Except ValueFault Value := do
  let x ← v.toReal
  if x < 0 then .error .outsideDomain else .ok (.float x.sqrt)

/-- The integer that a rounding of floats gives, as a float; an integer stays. -/
def wholeNumber (rounding : Float → Except ValueFault Int) (v : Value) : Except ValueFault Value :=
  match v.number? with
  | some (.int n) => (Number.int n).toFloat.map .float
  | _ => do
    let x ← v.toReal
    let n ← rounding x
    (Number.int n).toFloat.map .float

/-- The arguments, or the items of the only argument if that is a list. -/
def spreadArguments : List Value → List Value
  | [.list items] => items
  | arguments => arguments

/-- A fault of a call with named parameters. -/
def argumentFault (name : String) (least most : List String) (given : Nat) : Fault :=
  .value (.arguments name
    (if given < least.length then .missing (least.drop given)
     else .tooMany least.length most.length given))

/-- A function of two values. -/
def binary (name first second : String) (f : Value → Value → Except ValueFault Value) :
    List Value → Except Fault Value
  | [a, b] => liftValue (f a b)
  | arguments => .error (argumentFault name [first, second] [first, second] arguments.length)

/-- A function of one value. -/
def unary (fault : Nat → Fault) (f : Value → Except ValueFault Value) :
    List Value → Except Fault Value
  | [a] => liftValue (f a)
  | arguments => .error (fault arguments.length)

/-- A fault of a call of a function whose only parameter has no name. -/
def notOneArgument (name : String) (given : Nat) : Fault := .value (.arguments name (.notOne given))

/-- The result of a function. -/
def apply : Function → List Value → Except Fault Value
  | add => binary "<lambda>" "a" "b" Value.add
  | subtract => binary "<lambda>" "a" "b" Value.subtract
  | multiply => binary "<lambda>" "a" "b" Value.multiply
  | divide => binary "<lambda>" "a" "b" Value.divide
  | pow => binary "_pow" "base" "exponent" Value.raise
  | mod => binary "_mod" "x" "y" Value.modulo
  | sqrt => unary (notOneArgument "math.sqrt") squareRoot
  | abs => unary (notOneArgument "abs") Value.absolute
  | ceil => unary (argumentFault "<lambda>" ["x"] ["x"]) (wholeNumber ceilInteger)
  | floor => unary (argumentFault "<lambda>" ["x"] ["x"]) (wholeNumber floorInteger)
  | round => fun arguments =>
    match arguments with
    | [v] => roundTo v (.int 0)
    | [v, places] => roundTo v places
    | _ => .error
      (argumentFault "_round_half_away" ["value"] ["value", "decimals"] arguments.length)
  | max => fun arguments => liftValue (Value.extremum "max" .greater (spreadArguments arguments))
  | min => fun arguments => liftValue (Value.extremum "min" .less (spreadArguments arguments))
  | mean => fun arguments => liftValue (Value.mean (spreadArguments arguments))
  | median => fun arguments => liftValue (Value.median (spreadArguments arguments))
  | std => fun arguments => liftValue (Value.spread (spreadArguments arguments))
  | sum => fun arguments => liftValue (Value.total (spreadArguments arguments))

end Function

end Haulage
