/-
# Evaluating a formula with fallbacks

A formula is evaluated in stages. The **primary** stage prepares it and evaluates the expression. If
that fails, the **alternative** stage makes the choices between numbers that the expression has left
and evaluates it again. If that fails too, the **basic** stage computes value times pallets plus
toll from the variables alone. A blank formula has the value zero without any stage.

The report says which stage decided and what every attempt came to. A strict evaluation has no basic
stage, and fails where the others do.
-/
import Haulage.Formula.Choice
import Haulage.Formula.Preparation
import Haulage.Formula.Evaluation
import Haulage.Report.Stages

namespace Haulage

/-- The stages of an evaluation. -/
inductive Stage
  | primary | alternative | basic | empty
deriving DecidableEq, Repr

/-- The name of a stage in a report. -/
def Stage.name : Stage → String
  | primary => "primary"
  | alternative => "alternative"
  | basic => "basic"
  | empty => "empty"

/-- How a formula got its value. -/
structure Report where
  value : Float
  stage : Stage
  /-- The expression that was evaluated last, if one was prepared. -/
  expression : Option Text
  attempts : List (Attempt Stage Float)

/-- Was the value found only by a fallback? -/
def Report.degraded (r : Report) : Bool :=
  match r.stage with
  | .primary | .empty => false
  | .alternative | .basic => true

/-- What evaluates expressions: a number, or in words what went wrong. -/
abbrev Evaluator := Text → Except String Float

/-- The evaluator of the formula language. -/
def standardEvaluator : Evaluator := fun s => (evaluateText s).mapError Fault.record

/-! ## 1. The basic computation -/

/-- A quantity among variables that is a number; zero where it is missing or a text. -/
def amountOf (data : List (Text × Datum)) (q : Quantity) : Float :=
  match data.lookup q.name.toList with
  | some (.number x) => if x.isFinite then x else 0
  | _ => 0

/-- Value times pallets plus toll, or zero where that is not finite. -/
def basicAmount (data : List (Text × Datum)) : Float :=
  let x := amountOf data .value * amountOf data .pallets + amountOf data .toll
  if x.isFinite then x else 0

/-- The basic computation from variables that are yet to be made ready. -/
def basicComputation (inputs : Value) : Except ValueFault Float :=
  (normalize inputs).map basicAmount

/-! ## 2. The stages -/

/-- The value of a prepared expression. -/
def primaryStage (evaluator : Evaluator) (prepared : Except Fault Text) : Except String Float :=
  match prepared with
  | .ok s => evaluator s
  | .error f => .error f.record

/-- The value of a prepared expression after its choices between numbers were made. -/
def alternativeStage (evaluator : Evaluator) (prepared : Except Fault Text) :
    Except String Float :=
  match prepared with
  | .error _ => .error FormulaFault.nothingPrepared.message
  | .ok s =>
    let simplified := simplifyChoices s
    if simplified = s then .error FormulaFault.nothingToSimplify.message
    else evaluator simplified

/-- The value of the basic computation. -/
def basicStage (inputs : Value) : Except String Float :=
  (basicComputation inputs).mapError ValueFault.labelled

/-- The expression that was evaluated last, where this stage decided or none did. -/
def lastExpression (prepared : Except Fault Text) (decided : Option Stage) : Option Text :=
  match prepared with
  | .error _ => none
  | .ok s => if decided = some .primary then some s else some (simplifyChoices s)

/-- The report on the stages of a trial; zero where none of them decided. -/
def reportOf (prepared : Except Fault Text) (trial : Trial Stage Float) : Report :=
  match trial.decision with
  | some (stage, v) => ⟨v, stage, lastExpression prepared (some stage), trial.attempts⟩
  | none => ⟨0, .basic, lastExpression prepared none, trial.attempts⟩

/-! ## 3. Evaluation -/

/-- The text of a formula, if it has one that is not blank. What counts as false is no formula;
whatever else is no text has no blanks to strip. -/
def formulaText? (formula : Value) : Except ValueFault (Option Text) :=
  if !formula.isTruthy then .ok none
  else match formula with
    | .text s => .ok (if s.strip.isEmpty then none else some s)
    | v => .error (.noMember v.kind "strip")

/-- Is the formula longer than the settings allow? -/
def isTooLong (w : Surroundings) (s : Text) : Bool := w.settings.maxFormulaLength < s.length

/-- The fault of a formula that is too long. -/
def tooLongFault (w : Surroundings) (s : Text) : FormulaFault :=
  .formulaTooLong s.length w.settings.maxFormulaLength

/-- The report on a formula. -/
def report (w : Surroundings) (evaluator : Evaluator) (inputs formula : Value) :
    Except ValueFault Report :=
  match formulaText? formula with
  | .error f => .error f
  | .ok none => .ok ⟨0, .empty, none, []⟩
  | .ok (some s) =>
    if isTooLong w s then
      (basicComputation inputs).map fun v =>
        ⟨v, .basic, none, [⟨.primary, .error (tooLongFault w s).message⟩, ⟨.basic, .ok v⟩]⟩
    else
      let prepared := prepare w inputs formula
      .ok (reportOf prepared (runStages
        [(.primary, fun _ => primaryStage evaluator prepared),
         (.alternative, fun _ => alternativeStage evaluator prepared),
         (.basic, fun _ => basicStage inputs)]))

/-- The report on a formula that has a value without the basic computation. -/
def reportStrictly (w : Surroundings) (evaluator : Evaluator) (inputs formula : Value) :
    Except Fault Report :=
  match formulaText? formula with
  | .error f => .error (.value f)
  | .ok none => .error (.formula .blank)
  | .ok (some s) =>
    if isTooLong w s then .error (.formula (tooLongFault w s))
    else
      let prepared := prepare w inputs formula
      let trial := runStages
        [(.primary, fun _ => primaryStage evaluator prepared),
         (.alternative, fun _ => alternativeStage evaluator prepared)]
      if trial.decision.isSome then .ok (reportOf prepared trial)
      else .error (.formula (.noStage ((trial.attempts.head?.bind (·.error?)).getD "")))

/-- The value of a formula; zero where there is no report on it. -/
def evaluate (w : Surroundings) (inputs formula : Value) : Float :=
  match report w standardEvaluator inputs formula with
  | .ok r => r.value
  | .error _ => 0

/-- The value of a formula without the basic computation. -/
def evaluateStrictly (w : Surroundings) (inputs formula : Value) : Except Fault Float :=
  (reportStrictly w standardEvaluator inputs formula).map (·.value)

end Haulage
