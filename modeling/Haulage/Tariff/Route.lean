/-
# The price of a route

A route is priced by a formula if it has one, and by a method if not; extras are added on top. A
route with anything at fault costs nothing and has no extras.
-/
import Haulage.Tariff.Basic

namespace Haulage

/-- Something that is charged on top of a route's tariff. -/
structure Extra where
  id : Value
  name : Value
  amount : Float

namespace Extra

/-- The extra that a mapping describes. -/
def ofValue (v : Value) : Except ValueFault Extra := do
  let id ← v.getEntry "id" .null
  let name ← v.getEntry "name" (.text [])
  let amount ← (← v.getEntry "value" .null).toAmount
  .ok ⟨id, name, roundMoney amount⟩

/-- The extra as a value. -/
def toValue (e : Extra) : Value :=
  .record [("id", e.id), ("name", e.name), ("value", .float e.amount)]

end Extra

/-- What a route costs. -/
structure RoutePrice where
  base : Float
  toll : Float
  extras : List Extra
  extrasTotal : Float
  total : Float

namespace RoutePrice

/-- The price of nothing. -/
def zero : RoutePrice := ⟨0, 0, [], 0, 0⟩

/-- The price of a tariff with extras on top. -/
def ofTariff (t : Tariff) (extras : List Extra) : RoutePrice :=
  let sum := (extras.map (·.amount)).foldl (· + ·) 0
  ⟨t.base, t.toll, extras, roundMoney sum, roundMoney (t.total + sum)⟩

/-- The price as a value. -/
def toValue (p : RoutePrice) : Value :=
  .record [("base", .float p.base), ("toll", .float p.toll),
    ("extras", .list (p.extras.map Extra.toValue)), ("extras_total", .float p.extrasTotal),
    ("total", .float p.total)]

end RoutePrice

/-- A route to be priced, as it is asked for. -/
structure Route where
  base : Value
  toll : Value
  pallets : Value
  extras : Value
  formula : Value
  method : Value
  distance : Value

namespace Route

/-- The tariff of a route without extras. -/
def tariff (w : Surroundings) (r : Route) : Except ValueFault Tariff :=
  if r.formula.isTruthy then palletTariff w r.base r.toll r.pallets r.formula
  else .ok (methodTariff r.base r.toll (.ofValue r.method) r.pallets r.distance)

/-- The price of a route, where nothing is at fault. -/
def price? (w : Surroundings) (r : Route) : Except ValueFault RoutePrice := do
  let tariff ← r.tariff w
  let extras ← (← r.extras.items).mapM Extra.ofValue
  .ok (.ofTariff tariff extras)

/-- The price of a route. -/
def price (w : Surroundings) (r : Route) : RoutePrice :=
  match r.price? w with
  | .ok p => p
  | .error _ => .zero

end Route

end Haulage
