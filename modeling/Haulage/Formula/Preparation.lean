/-
# From a formula to an expression

A formula is prepared in three steps: its variables are made ready, its shorthands are spelled out,
and the variables are inlined. What results is a text that `evaluateText` can evaluate.
-/
import Haulage.Shorthand.Expansion
import Haulage.Substitution

namespace Haulage

/-- A formula with the literals of variables inlined; it must be a text. -/
def inlineInto (literals : List (Text × Text)) : Value → Except ValueFault Text
  | .text s => .ok (inlineLiterals literals s)
  | v => .error (.notText v.kind)

/-- The expression that a formula becomes. -/
def prepare (w : Surroundings) (inputs formula : Value) : Except Fault Text :=
  match normalize inputs with
  | .error f => .error (.value f)
  | .ok data =>
    match expand w none formula with
    | .error f => .error f
    | .ok expanded => liftValue (inlineInto (dataLiterals data) expanded)

end Haulage
