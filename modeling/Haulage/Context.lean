/-
# The context of a formula

A formula is evaluated for a transport, which has a value, a toll, a load and so on, for a date, and
with further variables of the caller's own. The eleven **standard quantities** have a name in
formulas and a key in small letters; either may be used to set them. A quantity that is null is not
set.

The four facts of the calendar come from their quantity if that is set, else from the date of the
context, else from the clock.
-/
import Haulage.Value.Conversion
import Haulage.Settings

namespace Haulage

/-- The standard quantities of a transport. -/
inductive Quantity
  | value | toll | pallets | amount | distance | weight | volume
  | weekday | month | quarter | weekend
deriving DecidableEq, Repr

namespace Quantity

/-- All quantities, in the order in which a context lists them. -/
def all : List Quantity :=
  [value, toll, pallets, amount, distance, weight, volume, weekday, month, quarter, weekend]

/-- The name of a quantity in formulas. -/
def name : Quantity → String
  | value => "Valor"
  | toll => "Peaje"
  | pallets => "Palets"
  | amount => "Cantidad"
  | distance => "Distancia"
  | weight => "Peso"
  | volume => "Volumen"
  | weekday => "DiaSemana"
  | month => "Mes"
  | quarter => "Trimestre"
  | weekend => "EsFinDeSemana"

/-- The key of a quantity in small letters. -/
def key : Quantity → String
  | value => "valor"
  | toll => "peaje"
  | pallets => "palets"
  | amount => "cantidad"
  | distance => "distancia"
  | weight => "peso"
  | volume => "volumen"
  | weekday => "dia_semana"
  | month => "mes"
  | quarter => "trimestre"
  | weekend => "es_fin_de_semana"

/-- The quantity that a text names or is the key of. -/
def of? (s : Text) : Option Quantity :=
  all.find? fun q => q.name.toList == s || q.key.toList == s

/-- The list of quantities is complete. -/
theorem mem_all (q : Quantity) : q ∈ all := by cases q <;> decide

end Quantity

/-- What a formula is evaluated for. -/
structure Context where
  /-- The standard quantities; null where one is not set. -/
  standard : Quantity → Value
  /-- The date, or null. -/
  date : Value
  /-- The variables of the caller's own. -/
  own : List (Text × Value)

namespace Context

/-- The context in which nothing is set. -/
def empty : Context := ⟨fun _ => .null, .null, []⟩

/-- The keys of the date. -/
def dateKeys : List String := ["Fecha", "fecha"]

/-- The context with an entry of a mapping set. -/
def set (c : Context) (key : Text) (v : Value) : Context :=
  match Quantity.of? key with
  | some q => { c with standard := fun q' => if q' = q then v else c.standard q' }
  | none =>
    if dateKeys.any fun k => k.toList == key then { c with date := v }
    else { c with own := putEntry key v c.own }

/-- The context that a mapping describes; of two entries for one quantity the later one counts. -/
def ofEntries (entries : List (Text × Value)) : Context :=
  entries.foldl (fun c (key, v) => c.set key v) empty

/-- The context that a value describes, which must be a mapping. -/
def ofValue : Value → Except ValueFault Context
  | .mapping entries => .ok (ofEntries entries)
  | v => .error (.noMember v.kind "items")

/-- The standard quantities that are set, under their names. -/
def setQuantities (c : Context) : List (Text × Value) :=
  Quantity.all.filterMap fun q =>
    if (c.standard q).isNull then none else some (q.name.toList, c.standard q)

/-- The variables that a formula sees. -/
def asVariables (c : Context) : List (Text × Value) :=
  c.setQuantities.foldl (fun entries (name, v) => putEntry name v entries) c.own

/-- The date of the context, or of the clock if it has none; whatever is no date lacks the member
that is asked for. -/
def dateFor (member : String) (c : Context) (clock : Moment) : Except ValueFault Date :=
  match c.date with
  | .null => .ok clock.date
  | .moment m => .ok m.date
  | .date d => .ok d
  | v => .error (.noMember v.kind member)

/-- A quantity as an integer if it is set, or else a fact of the date. -/
def integerOr (q : Quantity) (member : String) (fact : Date → Nat) (c : Context) (clock : Moment) :
    Except ValueFault Int :=
  if (c.standard q).isNull then (c.dateFor member clock).map fun d => fact d
  else (c.standard q).toInteger

/-- The day of the week, from 0 for Sunday to 6 for Saturday. -/
def weekday (c : Context) (clock : Moment) : Except ValueFault Int :=
  c.integerOr .weekday "weekday" Date.weekday clock

/-- The month. -/
def month (c : Context) (clock : Moment) : Except ValueFault Int :=
  c.integerOr .month "month" Date.month clock

/-- The quarter of the year. -/
def quarter (c : Context) (clock : Moment) : Except ValueFault Int :=
  c.integerOr .quarter "month" Date.quarter clock

/-- One on a weekend, else zero. -/
def weekend (c : Context) (clock : Moment) : Except ValueFault Int :=
  if (c.standard .weekend).isNull then
    (c.dateFor "weekday" clock).map fun d => if d.isWeekend then 1 else 0
  else .ok (if (c.standard .weekend).isTruthy then 1 else 0)

end Context

/-- What a formula is evaluated in: the settings, the context, and the time of the clock. -/
structure Surroundings where
  settings : Settings
  context : Context
  clock : Moment

end Haulage
