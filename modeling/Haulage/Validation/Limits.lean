/-
# The limits of a formula

A formula must not be too long, no call in it may have too many arguments, and it must not grow too
long when its shorthands are spelled out. Arguments are counted between semicolons and between
commas, and the greater number counts. Growth is tried out on a fixed context and clock, so that the
answer does not depend on the day.
-/
import Haulage.Shorthand.Expansion
import Haulage.Value.Items

namespace Haulage

/-- A limit that a formula exceeds. -/
inductive Excess
  | length (characters : Nat) (limit : Int)
  | arguments (function : Text) (count : Nat) (limit : Int)
  | expansion (f : FormulaFault)
deriving DecidableEq

/-- The wording of an excess. -/
def Excess.message : Excess → String
  | length characters limit => s!"Formula is too long ({characters} characters, maximum {limit})"
  | arguments function count limit =>
    let name := String.ofList function
    s!"Function {name} has {count} arguments (maximum {limit})"
  | expansion f => f.message

namespace Sample

/-- A Tuesday in June. -/
def date : Date := ⟨2024, 6, 4, by decide, by decide, by decide, by decide, by decide, by decide⟩

/-- Noon. -/
def noon : TimeOfDay := { TimeOfDay.midnight with hour := 12, hour_lt := by decide }

/-- The clock of a trial. -/
def clock : Moment := ⟨date, noon, none⟩

/-- The context of a trial: the facts of the calendar for a Tuesday in June. -/
def context : Context :=
  .ofEntries [(Quantity.weekday.name.toList, .int 2), (Quantity.month.name.toList, .int 6),
    (Quantity.quarter.name.toList, .int 2), (Quantity.weekend.name.toList, .bool false)]

/-- The surroundings of a trial. -/
def surroundings (settings : Settings) : Surroundings := ⟨settings, context, clock⟩

end Sample

/-- The number of arguments of a call. -/
def argumentCount (body : Text) : Nat :=
  max (semicolonArguments body).length (splitArguments (· == ',') body).length

/-- The first call in a text with too many arguments. -/
def excessiveCall? (limit : Int) (s : Text) : Option Excess :=
  ((callSites anyHead s).find? fun call => limit < argumentCount call.body).map fun call =>
    .arguments call.name (argumentCount call.body) limit

/-- The limit that a text exceeds when it is spelled out. -/
def excessiveExpansion? (settings : Settings) (s : Text) : Except ValueFault (Option Excess) :=
  match expand (Sample.surroundings settings) none (.text s) with
  | .ok _ => .ok none
  | .error (.formula f) => .ok (some (.expansion f))
  | .error (.value f) => .error f

/-- The first limit that a formula exceeds, if it exceeds one. -/
def excess? (settings : Settings) (formula : Value) : Except ValueFault (Option Excess) := do
  let length ← formula.length
  if settings.maxFormulaLength < length then
    .ok (some (.length length settings.maxFormulaLength))
  else match formula with
    | .text s =>
      match excessiveCall? settings.maxFunctionArguments s with
      | some e => .ok (some e)
      | none => excessiveExpansion? settings s
    | v => .error (.notText v.kind)

end Haulage
