/-
# Powers

`power x y` is the float nearest to `x` raised to `y`, as the standard for floats has it: the first
argument one, and the second zero, give one whatever the other is. Only an odd power of a zero keeps
its sign. A power that is no real number and one beyond the floats are told apart.
-/
import Haulage.Number.Exact

namespace Haulage

/-- Why a power has no float. -/
inductive PowerFault
  | outsideDomain | tooLarge
deriving DecidableEq, Repr

/-- Is the float a whole odd number? -/
def isOddWhole (x : Float) : Bool :=
  match Exact.fraction? x with
  | some f => f.num % f.den == 0 && f.num / f.den % 2 == 1
  | none => false

/-- A power of which one of the two arguments is not finite. -/
def infinitePower (x y : Float) : Float :=
  if x.isNaN then (if y == 0 then 1 else x)
  else if y.isNaN then (if x == 1 then 1 else y)
  else if x.isInf then
    if y > 0 then (if isOddWhole y then x else x.abs)
    else if y == 0 then 1
    else if isOddWhole y then Exact.withSignOf 0 x
    else 0
  else if x.abs == 1 then 1
  else if y > 0 && x.abs > 1 then y
  else if y < 0 && x.abs < 1 then -y
  else 0

/-- A power of two finite floats. -/
def finitePower (x y : Float) : Except PowerFault Float :=
  if y == 0 then .ok 1
  else if x == 0 then
    if y < 0 then .error .outsideDomain else .ok (if isOddWhole y then x else 0)
  else
    let r := Float.pow x y
    if r.isNaN then .error .outsideDomain
    else if r.isInf then .error .tooLarge
    else .ok r

/-- The power of two floats. -/
def power (x y : Float) : Except PowerFault Float :=
  if x.isFinite && y.isFinite then finitePower x y else .ok (infinitePower x y)

end Haulage
