/-
# Simulating tariffs

A simulation evaluates one formula in one context and reports both the tariff and how it was found.
A batch simulates many items, and an item at fault does not hold up the others.
-/
import Haulage.Tariff.Basic

namespace Haulage

namespace Attempt

/-- The attempt at a stage of an evaluation as a value. -/
def toValue (a : Attempt Stage Float) : Value :=
  .record [("stage", .ofString a.stage.name),
    ("value", (a.value?.map Value.float).getD .null),
    ("error", (a.error?.map Value.ofString).getD .null)]

end Attempt

namespace Report

/-- The report as a value. -/
def toValue (r : Report) : Value :=
  .record [("value", .float r.value), ("stage", .ofString r.stage.name),
    ("expression", (r.expression.map Value.text).getD .null), ("degraded", .bool r.degraded),
    ("attempts", .list (r.attempts.map Attempt.toValue))]

end Report

/-- What a formula comes to in a context. -/
structure Simulation where
  formula : Text
  tariff : Tariff
  evaluation : Report

namespace Simulation

/-- The simulation of a formula. -/
def ofFormula (w : Surroundings) (formula : Text) : Except ValueFault Simulation := do
  let evaluation ← report w standardEvaluator (.mapping w.context.asVariables) (.text formula)
  .ok ⟨formula, contextTariff w (.text formula), evaluation⟩

/-- The simulation of an item: a mapping with a formula, which must be a text, and perhaps a
context. -/
def ofItem (settings : Settings) (clock : Moment) (item : Value) :
    Except ValueFault Simulation := do
  match ← item.getEntry "formula" .null with
  | .text formula =>
    let context ← item.getEntry "context" .null
    let context ← if context.isTruthy then Context.ofValue context else .ok .empty
    ofFormula ⟨settings, context, clock⟩ formula
  | _ => .error .noFormula

/-- The parts of a simulation under their names. -/
def entries (s : Simulation) : List (String × Value) :=
  [("formula", .text s.formula), ("tariff", s.tariff.toValue),
    ("evaluation", s.evaluation.toValue)]

/-- The simulation as a value. -/
def toValue (s : Simulation) : Value := .record s.entries

end Simulation

/-- The simulations of the items of a value. -/
def simulateBatch (settings : Settings) (clock : Moment) (items : Value) :
    Except ValueFault (List (Except ValueFault Simulation)) :=
  items.items.map fun vs => vs.map (Simulation.ofItem settings clock)

/-- The result of one item of a batch as a value. -/
def batchEntry (index : Nat) : Except ValueFault Simulation → Value
  | .ok s => .record (("index", .int index) :: s.entries)
  | .error f => .record [("index", .int index), ("error", .ofString f.message)]

/-- The results of a batch as a value. -/
def batchValue (results : List (Except ValueFault Simulation)) : Value :=
  .list (results.mapIdx batchEntry)

end Haulage
