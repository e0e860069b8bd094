/-
# Tariffs

A tariff is what a transport costs: a base, a toll and their total, in money. It comes from a
formula, from a context, or from a method of charging. These computations always end in a tariff:
where something is at fault they fall back to the product of value and pallets, or to nothing.
-/
import Haulage.Report.Evaluation
import Haulage.Value.Items
import Haulage.Money

namespace Haulage

/-- What a transport costs. -/
structure Tariff where
  base : Float
  toll : Float
  total : Float

namespace Tariff

/-- The tariff of amounts that are yet to be rounded. -/
def rounded (base toll total : Float) : Tariff :=
  ⟨roundMoney base, roundMoney toll, roundMoney total⟩

/-- The tariff of nothing. -/
def zero : Tariff := ⟨0, 0, 0⟩

/-- The parts of a tariff under their names. -/
def entries (t : Tariff) : List (String × Value) :=
  [("base", .float t.base), ("toll", .float t.toll), ("total", .float t.total)]

/-- The tariff as a value. -/
def toValue (t : Tariff) : Value := .record t.entries

end Tariff

/-! ## 1. By formula -/

/-- The tariff of a product of value and pallets, and a toll. -/
def productTariff (base toll pallets : Float) : Tariff :=
  .rounded (base * pallets) toll (base * pallets + toll)

/-- The quantities that a pallet formula sees. -/
def palletVariables (base toll pallets : Float) : Value :=
  .mapping [(Quantity.value.name.toList, .float base), (Quantity.toll.name.toList, .float toll),
    (Quantity.pallets.name.toList, .float pallets)]

/-- How a formula adds the toll as a term of its own. -/
def tollTerm : String := "+ Peaje"

/-- The toll among a total: the formula must add it as a term of its own. -/
def tollWithin (formula : Value) (toll : Float) : Float :=
  if formula.mentions? tollTerm == some true then toll else 0

/-- The tariff of a formula on amounts. One that mentions the toll but neither value nor pallets is
not evaluated: its total is value plus toll. -/
def formulaTariff (w : Surroundings) (base toll pallets : Float) (formula : Value) : Tariff :=
  let mentions (q : Quantity) := formula.mentions? q.name
  match mentions .toll with
  | none => productTariff base toll pallets
  | some mentionsToll =>
    if mentionsToll && mentions .value == some false && mentions .pallets == some false then
      .rounded base toll (base + toll)
    else
      let total := evaluate { w with context := .empty } (palletVariables base toll pallets) formula
      let toll := tollWithin formula toll
      .rounded (total - toll) toll total

/-- The tariff of a formula, or of the default one, on values of any kind. An integer beyond the
floats is at fault. -/
def palletTariff (w : Surroundings) (base toll pallets formula : Value) :
    Except ValueFault Tariff := do
  let base ← base.toAmount
  let toll ← toll.toAmount
  let pallets ← pallets.toAmount
  let formula := if formula.isTruthy then formula else w.settings.defaultFormula
  .ok (formulaTariff w base toll pallets formula)

/-! ## 2. By context -/

/-- The tariff of a formula in its context; the toll of the context is part of the total if the
formula mentions it. -/
def contextTariff (w : Surroundings) (formula : Value) : Tariff :=
  let total := evaluate w (.mapping w.context.asVariables) formula
  match formula.mentions? Quantity.toll.name with
  | none => .zero
  | some false => .rounded (total - 0) 0 total
  | some true =>
    match (w.context.standard .toll).toAmount with
    | .ok toll => .rounded (total - toll) toll total
    | .error _ => .zero

/-- The tariff of a formula where there may be no context, and then nothing to charge. -/
def tariffIn (settings : Settings) (clock : Moment) (context : Option Context) (formula : Value) :
    Tariff :=
  match context with
  | some context => contextTariff ⟨settings, context, clock⟩ formula
  | none => .zero

/-! ## 3. By method -/

/-- The methods of charging. -/
inductive Method
  | pallet | kilometer | fixed
deriving DecidableEq, Repr

namespace Method

/-- All methods. -/
def all : List Method := [pallet, kilometer, fixed]

/-- The name of a method. -/
def name : Method → String
  | pallet => "Palet"
  | kilometer => "Kilometro"
  | fixed => "Fijo"

/-- The method that a value names; by pallets where it names none. -/
def ofValue (v : Value) : Method :=
  match v with
  | .text s => (all.find? fun m => m.name.toList == s).getD pallet
  | _ => pallet

end Method

/-- The base by a method. By kilometre is meant only where there is a distance. -/
def methodBase (base : Float) (method : Method) (distance : Float) (pallets : Value) :
    Except ValueFault Float :=
  match method with
  | .kilometer =>
    if distance == 0 then pallets.toAmount.map (base * ·) else .ok (base * distance)
  | .fixed => .ok base
  | .pallet => pallets.toAmount.map (base * ·)

/-- The tariff by a method on amounts that may be at fault. -/
def methodTariff? (base toll : Value) (method : Method) (pallets distance : Value) :
    Except ValueFault Tariff := do
  let base ← base.toAmount
  let toll ← toll.toAmount
  let distance ← distance.toAmount
  let base ← methodBase base method distance pallets
  .ok (.rounded base toll (base + toll))

/-- The tariff by a method, or nothing where an amount is at fault. -/
def methodTariff (base toll : Value) (method : Method) (pallets distance : Value) : Tariff :=
  match methodTariff? base toll method pallets distance with
  | .ok t => t
  | .error _ => .zero

end Haulage
