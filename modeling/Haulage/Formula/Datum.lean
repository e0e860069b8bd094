/-
# Values made ready for a formula

Callers supply variables of every kind, but a formula computes with finite numbers and texts.
`Datum.ofValue` turns each value into one of the two: a text that reads as a finite number becomes
that number, a date the milliseconds since 1970, a truth value one or zero, and whatever is no
finite number the text it is shown with.
-/
import Haulage.Value.Conversion
import Haulage.Formula.Literal

namespace Haulage

/-- A value that a formula can compute with; a number is finite when it comes from a value. -/
inductive Datum
  | number (x : Float)
  | text (s : Text)
deriving DecidableEq

namespace Datum

/-- The number, if it is finite, or else the text. -/
def ofFloat (x : Float) (otherwise : Text) : Datum :=
  if x.isFinite then number x else text otherwise

/-- The datum that a value becomes. -/
def ofValue : Value → Except ValueFault Datum
  | .text s =>
    match readFloat? s.strip with
    | some x => .ok (ofFloat x s)
    | none => .ok (text s)
  | .moment m => .ok (number m.epochMillis)
  | .date d => .ok (number (Moment.ofDate d).epochMillis)
  | .bool b => .ok (number (if b then 1 else 0))
  | .int n =>
    match Exact.ofInt? n with
    | some x => .ok (number x)
    | none => (integerDigitsText n).map text
  | .float x => .ok (ofFloat x (floatText x))
  | .decimal d => (decimalToFloat d).map fun x => ofFloat x d.write
  | v => v.written.map text

/-- The datum as a value. -/
def toValue : Datum → Value
  | number x => .float x
  | text s => .text s

/-- The datum as a literal. -/
def literal : Datum → Text
  | number x => (Number.float x).literal
  | text s => s.literal

/-- A datum and its value are written as the same literal. -/
theorem literal_toValue (d : Datum) : d.toValue.literal = .ok d.literal := by
  cases d <;> rfl

end Datum

/-- The entries of a mapping, where any value that counts as false stands for none. -/
def Value.entriesOrNone (v : Value) : Except ValueFault (List (Text × Value)) :=
  if !v.isTruthy then .ok []
  else match v with
    | .mapping entries => .ok entries
    | v => .error (.noMember v.kind "items")

/-- The variables of a mapping, made ready for a formula. -/
def normalizeEntries (entries : List (Text × Value)) : Except ValueFault (List (Text × Datum)) :=
  entries.mapM fun (name, v) => (Datum.ofValue v).map fun d => (name, d)

/-- The variables that a value maps, made ready for a formula. -/
def normalize (inputs : Value) : Except ValueFault (List (Text × Datum)) := do
  normalizeEntries (← inputs.entriesOrNone)

end Haulage
