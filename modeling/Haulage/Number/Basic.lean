/-
# Numbers

A number is an integer of any size or a float. Comparing the two kinds is exact; computing with
both turns the integer into the nearest float first, if there is one.
-/
import Haulage.Number.Notation

namespace Haulage

/-- An integer or a float. -/
inductive Number
  | int (n : Int)
  | float (x : Float)
deriving DecidableEq

namespace Number

/-- The order of two floats; there is none with a float that is no number. -/
def compareFloats (x y : Float) : Option Ordering :=
  if x < y then some .lt
  else if x == y then some .eq
  else if y < x then some .gt
  else none

/-- The order of two numbers by their exact values. -/
def compare? : Number → Number → Option Ordering
  | int m, int n => some (compare m n)
  | int m, float y => Exact.compareInt m y
  | float x, int n => (Exact.compareInt n x).map Ordering.swap
  | float x, float y => compareFloats x y

/-- Is the first number below the second? -/
def less (a b : Number) : Bool := a.compare? b == some .lt

/-- The float nearest to a number, unless it is an integer beyond the floats. -/
def toFloat? : Number → Option Float
  | int n => Exact.ofInt? n
  | float x => some x

/-- The exact value of a number that is finite. -/
def fraction? : Number → Option Fraction
  | int n => some (.ofInt n)
  | float x => Exact.fraction? x

/-- Is the number zero? -/
def isZero : Number → Bool
  | int n => n == 0
  | float x => x == 0

/-- The text of a number in a formula. -/
def text : Number → Text
  | int n => integerText n
  | float x => numberText x

end Number

end Haulage
