/-
# Statistics of values

The greatest and least value, the sum, the mean, the median and the spread of a list of values. Mean
and spread are computed with exact fractions and rounded once, so no intermediate result can
overflow; an infinite or undefined value among the others decides the mean alone, and leaves no
spread.
-/
import Haulage.Value.Arithmetic
import Haulage.Value.Order
import Haulage.Sorting

namespace Haulage

namespace Value

/-- The first value that no later one exceeds in the relation. -/
def extremum (name : String) (beats : Relation) : List Value → Except ValueFault Value
  | [] => .error (.noValues name)
  | v :: vs => vs.foldlM (fun best v => do
      if ← related beats v best then .ok v else .ok best) v

/-- The sum from left to right, starting with the integer zero. -/
def total (vs : List Value) : Except ValueFault Value := vs.foldlM add (int 0)

/-- What a value contributes to a statistic: an exact fraction, or a float that is not finite. -/
def contribution (v : Value) : Except ValueFault (Fraction ⊕ Float) :=
  match v.number? with
  | none => .error (.notFraction v.kind)
  | some n =>
    match n.fraction?, n with
    | some f, _ => .ok (.inl f)
    | none, .float x => .ok (.inr x)
    | none, .int n => .ok (.inl (.ofInt n))

/-- The exact part of a list of contributions. -/
def exactPart (cs : List (Fraction ⊕ Float)) : List Fraction := cs.filterMap (·.getLeft?)

/-- The floats among a list of contributions that are not finite. -/
def otherPart (cs : List (Fraction ⊕ Float)) : List Float := cs.filterMap (·.getRight?)

/-- The sum of fractions. -/
def fractionSum (fs : List Fraction) : Fraction := fs.foldl Fraction.add (.ofInt 0)

/-- The float nearest to a fraction, unless it is beyond the floats. -/
def nearestFloat (f : Fraction) : Except ValueFault Float :=
  let x := f.nearest
  if x.isFinite then .ok x else .error .quotientTooLarge

/-- Is the value an integer or a truth value? -/
def isInteger (v : Value) : Bool :=
  match v.number? with
  | some (.int _) => true
  | _ => false

/-- The mean: of integers an integer where it is one, else the nearest float. -/
def mean (vs : List Value) : Except ValueFault Value := do
  let cs ← vs.mapM contribution
  if h : 0 < vs.length then
    match otherPart cs with
    | [] =>
      let f := (fractionSum (exactPart cs)).divNat vs.length h
      if vs.all isInteger && f.num % f.den == 0 then .ok (int (f.num / f.den))
      else (nearestFloat f).map float
    | others => .ok (float (others.foldl (· + ·) 0 / Float.ofNat vs.length))
  else .error (.tooFewPoints "mean requires at least one data point")

/-- The middle value of a sorted list, or half the sum of the two middle ones. -/
def middleOf (sorted : List Value) : Except ValueFault Value := do
  let middle := sorted.length / 2
  if sorted.length % 2 = 1 then .ok (sorted[middle]?.getD null)
  else match sorted[middle - 1]?, sorted[middle]? with
    | some a, some b => (← a.add b).divide (int 2)
    | _, _ => .error (.tooFewPoints "no median for empty data")

/-- The median: what stands in the middle when the values are in order. -/
def median (vs : List Value) : Except ValueFault Value := do middleOf (← sortBy isLess vs)

/-- The spread: the square root of the sum of squared distances from the mean, divided by the
number of values less one. -/
def spread (vs : List Value) : Except ValueFault Value := do
  let cs ← vs.mapM contribution
  if vs.length < 2 then .error (.tooFewPoints "stdev requires at least two data points")
  else if !(otherPart cs).isEmpty then .error .notFiniteSpread
  else
    let fs := exactPart cs
    let sum := fractionSum fs
    let squares := fractionSum (fs.map fun f => f.mul f)
    let n := vs.length
    let f := ((Fraction.ofInt n).mul squares).sub (sum.mul sum)
    let root := nearestRoot f.num.toNat (f.den * (n * (n - 1)))
    if root.isFinite then .ok (float root) else .error .quotientTooLarge

end Value

end Haulage
