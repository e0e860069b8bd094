/-
# The service

Three endpoints offer the engine to other programs: one validates a formula, one calculates the
price of a route, one simulates a formula in a context. Only authenticated callers are answered, and
only posts. A request at fault is answered with what is wrong in each of its fields.
-/
import Haulage.Request.Field
import Haulage.Validation.Verdict
import Haulage.Validation.Analysis
import Haulage.Tariff.Route
import Haulage.Simulation

namespace Haulage

/-- The endpoints of the service. -/
inductive Endpoint
  | validate | calculate | simulate
deriving DecidableEq, Repr

namespace Endpoint

/-- All endpoints. -/
def all : List Endpoint := [validate, calculate, simulate]

/-- The path of an endpoint. -/
def path : Endpoint → String
  | validate => "/formulas/validate/"
  | calculate => "/tariffs/calculate/"
  | simulate => "/tariffs/simulate/"

/-- The name of an endpoint. -/
def name : Endpoint → String
  | validate => "formula-validate"
  | calculate => "tariff-calculate"
  | simulate => "tariff-simulate"

/-- The endpoint with a path. -/
def ofPath? (path : Text) : Option Endpoint := all.find? fun e => e.path.toList == path

end Endpoint

/-- An answer of the service. -/
structure Response where
  status : Nat
  body : Value

/-! ## 1. Requests -/

/-- A formula in a request must not be longer than the settings allow. -/
def withinLength (settings : Settings) (s : Text) : Except Rejection Text :=
  if settings.maxFormulaLength < s.length then
    .error (.message s!"formula must be at most {settings.maxFormulaLength} characters")
  else .ok s

/-- Reads a formula. -/
def readFormula (settings : Settings) (allowBlank : Bool) : Reader Text :=
  (Reader.text allowBlank).checked (withinLength settings)

/-- A request to validate a formula. -/
structure ValidationRequest where
  formula : Text
  available : List Text

/-- Reads a request to validate a formula. -/
def ValidationRequest.read (settings : Settings) : Reader ValidationRequest :=
  Reader.object fun entries =>
    ((Checked.field "formula" (.error missingField) (readFormula settings false) entries).and
      (Checked.field "available_variables" (.ok [])
        (Reader.list .message Reader.identifier) entries)).map
      fun (formula, available) => ⟨formula, available⟩

/-- Reads an extra: a mapping of what was read. -/
def readExtra : Reader Value := Reader.notNull (Reader.object fun entries =>
  ((Checked.field "id" (.ok none) (fun v => (Reader.text true v).map some) entries).and
    ((Checked.field "name" (.error missingField) (Reader.text false) entries).and
      (Checked.field "value" (.error missingField) Reader.number entries))).map
    fun (id, name, amount) =>
      .mapping ((id.map fun s => ("id".toList, Value.text s)).toList ++
        [("name".toList, .text name), ("value".toList, .float amount)]))

/-- A request to price a route. -/
structure RouteRequest where
  base : Float
  toll : Float
  pallets : Float
  formula : Text
  method : Method
  distance : Option Float
  extras : List Value

namespace RouteRequest

/-- Reads the fields of a request to price a route. -/
def fields (settings : Settings) (entries : List (Text × Value)) : Checked RouteRequest :=
  let optionalNumber key := Checked.field key (.ok 0) Reader.number entries
  ((Checked.field "base" (.error missingField) Reader.number entries).and
    ((optionalNumber "toll").and
    ((optionalNumber "pallets").and
    ((Checked.field "formula" (withinLength settings []) (readFormula settings true) entries).and
    ((Checked.field "method" (.ok .pallet)
      (Reader.choice (Method.all.map Method.name) fun s => .ofValue (.text s)) entries).and
    ((Checked.field "distance" (.ok none) Reader.number.nullable entries).and
    (Checked.field "extras" (.ok []) (Reader.list .whole readExtra) entries))))))).map
    fun (base, toll, pallets, formula, method, distance, extras) =>
      ⟨base, toll, pallets, formula, method, distance, extras⟩

/-- Is the route charged by kilometre without a distance to charge? -/
def lacksDistance (r : RouteRequest) : Bool :=
  r.formula.isEmpty && r.method == .kilometer && r.distance.all (· == 0)

/-- Reads a request to price a route. -/
def read (settings : Settings) : Reader RouteRequest :=
  (Reader.object (fields settings)).checked fun r =>
    if r.lacksDistance then .error (.whole "distance is required for the Kilometro method")
    else .ok r

/-- The route that is to be priced. -/
def route (r : RouteRequest) : Route where
  base := .float r.base
  toll := .float r.toll
  pallets := .float r.pallets
  extras := .list r.extras
  formula := .text r.formula
  method := .ofString r.method.name
  distance := (r.distance.map Value.float).getD .null

end RouteRequest

/-- A request to simulate a formula. -/
structure SimulationRequest where
  formula : Text
  context : Context

/-- The context of a request: a mapping, in which a date of its own takes the place of any other. -/
def requestedContext (entries : List (Text × Value)) (date : Option Moment) : Context :=
  .ofEntries (match date with
    | some m => putEntry "fecha".toList (.moment m) entries
    | none => entries)

/-- Reads a request to simulate a formula. -/
def SimulationRequest.read (settings : Settings) : Reader SimulationRequest :=
  Reader.object fun entries =>
    ((Checked.field "formula" (.error missingField) (readFormula settings false) entries).and
      ((Checked.field "context" (.ok []) Reader.mapping entries).and
        (Checked.field "fecha" (.ok none) Reader.moment.nullable entries))).map
      fun (formula, context, date) => ⟨formula, requestedContext context date⟩

/-! ## 2. Answers -/

namespace Response

/-- The answer to a request that was carried out. -/
def success (entries : List (String × Value)) : Response :=
  ⟨200, .record (("status", .int 200) :: entries)⟩

/-- The answer to a request at fault. -/
def refusal (r : Rejection) : Response := ⟨400, r.toValue⟩

/-- The answer to a request that is not even looked at. -/
def denial (status : Nat) (wording : String) : Response :=
  ⟨status, .record [("detail", .ofString wording)]⟩

/-- The answer to a fault that no request is to blame for. -/
def failure (f : ValueFault) : Response := denial 500 f.message

end Response

namespace Endpoint

/-- Reads the body of a request, which must be there. -/
def readBody {α : Type} (read : Reader α) : Reader α
  | .null => .error (.whole "No data provided")
  | v => read v

/-- The answer to a request that can be read. -/
def answerWith {α : Type} (read : Reader α) (answer : α → Response) (body : Value) : Response :=
  match readBody read body with
  | .ok request => answer request
  | .error r => .refusal r

/-- The verdict on a formula and its analysis. -/
def answerValidation (settings : Settings) (r : ValidationRequest) : Response :=
  let verdict := Haulage.validate settings (.text r.formula) (.texts r.available)
  let analysis := Analysis.ofText r.formula
  .success
    [("message", .ofString (if verdict.isValid then "Formula validated successfully"
      else "Formula contains errors")),
     ("data", .record (verdict.entries ++ [("analysis", analysis.toValue)]))]

/-- The price of a route. -/
def answerRoute (settings : Settings) (clock : Moment) (r : RouteRequest) : Response :=
  .success [("data", (r.route.price ⟨settings, .empty, clock⟩).toValue)]

/-- The tariff of a formula and how it was found. -/
def answerSimulation (settings : Settings) (clock : Moment) (r : SimulationRequest) : Response :=
  match Simulation.ofFormula ⟨settings, r.context, clock⟩ r.formula with
  | .ok s => .success
    [("data", .record [("tariff", s.tariff.toValue), ("evaluation", s.evaluation.toValue)])]
  | .error f => .failure f

/-- The answer of an endpoint to the body of a request. -/
def answer (settings : Settings) (clock : Moment) : Endpoint → Value → Response
  | validate => answerWith (ValidationRequest.read settings) (answerValidation settings)
  | calculate => answerWith (RouteRequest.read settings) (answerRoute settings clock)
  | simulate => answerWith (SimulationRequest.read settings) (answerSimulation settings clock)

/-- The answer of an endpoint to a request. -/
def respond (settings : Settings) (clock : Moment) (e : Endpoint) (authenticated : Bool)
    (verb : String) (body : Value) : Response :=
  if !authenticated then .denial 403 "You do not have permission to perform this action."
  else if verb != "POST" then .denial 405 s!"Method \"{verb}\" not allowed."
  else e.answer settings clock body

end Endpoint

end Haulage
