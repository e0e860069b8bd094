/-
# Validating a formula

A formula is accepted if it keeps the limits, uses only variables that are standard or announced,
and evaluates to a finite number on sample values. Everything else about it is a verdict as well,
so validation always ends in one.
-/
import Haulage.Validation.Names
import Haulage.Validation.Limits
import Haulage.Report.Evaluation

namespace Haulage

/-- What validation finds. -/
inductive Verdict
  | accepted (used : List Text)
  | blank
  | excessive (e : Excess)
  | unknownVariables (unknown used : List Text)
  | faulty (f : Fault)

namespace Verdict

/-- Is the formula valid? -/
def isValid : Verdict → Bool
  | accepted _ => true
  | _ => false

/-- The wording of a verdict. -/
def message : Verdict → String
  | accepted _ => "Formula is valid"
  | blank => FormulaFault.blank.message
  | excessive e => e.message
  | unknownVariables unknown _ =>
    "Unknown variables: " ++ String.ofList (Text.join ", ".toList unknown)
  | faulty f => "Formula error: " ++ f.message

/-- The variables that were found, where validation came so far and the formula has a value. -/
def used : Verdict → List Text
  | accepted used => used
  | unknownVariables _ used => used
  | _ => []

/-- The parts of a verdict under their names. -/
def entries (v : Verdict) : List (String × Value) :=
  [("valid", .bool v.isValid), ("message", .ofString v.message),
    ("used_variables", .texts v.used)]

end Verdict

namespace Sample

/-- The sample value of a quantity. -/
def amount : Quantity → Int
  | .value => 100
  | .toll => 10
  | .amount => 5
  | .pallets => 5
  | .distance => 50
  | .weight => 1000
  | .volume => 20
  | .weekday => 2
  | .month => 6
  | .quarter => 2
  | .weekend => 0

/-- The sample values of all quantities, and one for each further name. -/
def bindings (names : List Text) : List (Text × Value) :=
  names.foldl
    (fun entries name =>
      if (entries.lookup name).isSome then entries else entries ++ [(name, .int 1)])
    (Quantity.all.map fun q => (q.name.toList, .int (amount q)))

end Sample

/-- The names that a value lists, which must be texts. -/
def namesIn? (v : Value) : Except ValueFault (List Text) := do
  (← v.items).mapM fun
    | .text s => .ok s
    | v => .error (.noLength v.kind)

/-- The names that are announced; none where the value counts as false. -/
def announcedNames (available : Value) : Except ValueFault (List Text) :=
  if available.isTruthy then namesIn? available else .ok []

/-- Is the name that of a quantity, or among those announced? -/
def isAllowed (available : List Text) (name : Text) : Bool :=
  (Quantity.all.any fun q => q.name.toList == name) || available.contains name

/-- The verdict on a formula with names, where no value is at fault. -/
def verdict (settings : Settings) (formula : Value) (available : List Text) :
    Except ValueFault Verdict := do
  match ← formulaText? formula with
  | none => .ok .blank
  | some s =>
    match ← excess? settings formula with
    | some e => .ok (.excessive e)
    | none =>
      let used := variablesOf s
      let unknown := used.filter (!isAllowed available ·)
      if unknown.isEmpty then
        let w := Sample.surroundings settings
        match evaluateStrictly w (.mapping (Sample.bindings available)) formula with
        | .ok _ => .ok (.accepted used)
        | .error f => .ok (.faulty f)
      else .ok (.unknownVariables unknown used)

/-- The verdict on a formula. -/
def validate (settings : Settings) (formula available : Value) : Verdict :=
  match announcedNames available with
  | .error f => .faulty (.value f)
  | .ok names =>
    match verdict settings formula names with
    | .ok v => v
    | .error f => .faulty (.value f)

end Haulage
