/-
# Why a formula has no value

A `FormulaFault` is the formula's own fault: its form, its evaluation, or its size. A `Fault` is
either that or a fault of a value that no formula is to blame for. `Fault.record` is the wording
that reports keep; a value's fault carries the label of its family there.
-/
import Haulage.Formula.SyntaxFault
import Haulage.Value.Fault

namespace Haulage

/-- What a formula can be at fault with. -/
inductive FormulaFaultKind
  | form | evaluation | size
deriving DecidableEq, Repr

/-- A formula's own fault. -/
inductive FormulaFault
  /-- The text is no expression. -/
  | unreadable (f : SyntaxFault)
  /-- A variable that has no value. -/
  | unknownVariable (name : Text)
  /-- A function that does not exist. -/
  | unknownFunction (name : Text)
  /-- A text as the condition of a choice. -/
  | textCondition
  /-- An operator that joins no operands. -/
  | unsupportedOperator (name : String)
  /-- A node that is no expression. -/
  | notExpression
  /-- Places to round to that are no whole number, or too far off. -/
  | roundingPlaces
  /-- An operation on values that has no result. -/
  | operation (f : ValueFault)
  /-- A result that is no number, as it is shown. -/
  | notNumber (shown : Text)
  /-- A result that is not finite. -/
  | notFinite (shown : Text)
  /-- No formula at all. -/
  | blank
  /-- A formula of more characters than allowed. -/
  | formulaTooLong (length : Nat) (limit : Int)
  /-- Nothing was prepared that could be simplified. -/
  | nothingPrepared
  /-- The expression has no choice between numbers. -/
  | nothingToSimplify
  /-- No stage had a value; what the first one recorded. -/
  | noStage (firstRecord : String)
  /-- A formula that has more characters than allowed once it is spelled out. -/
  | expansionTooLong (length : Nat) (limit : Int)
deriving DecidableEq

namespace FormulaFault

/-- What the formula is at fault with. -/
def kind : FormulaFault → FormulaFaultKind
  | unreadable _ => .form
  | expansionTooLong .. => .size
  | _ => .evaluation

/-- The number of places to round to may be this far from zero. -/
def mostPlaces : Nat := 15

/-- The wording of a fault. -/
def message : FormulaFault → String
  | unreadable f => f.message
  | unknownVariable name =>
    let shown := String.ofList name
    s!"Unknown variable '{shown}'"
  | unknownFunction name =>
    let shown := String.ofList name
    s!"Unknown function '{shown}'"
  | textCondition => "Condition must be numeric or boolean"
  | unsupportedOperator name => s!"Unsupported operator Token(TokenType.{name}, None)"
  | notExpression => "Invalid AST node"
  | roundingPlaces =>
    s!"round() decimals must be an integer between -{mostPlaces} and {mostPlaces}"
  | operation f => f.labelled
  | notNumber shown => "Expression did not produce a number: " ++ String.ofList shown
  | notFinite shown => "Expression produced a non-finite number: " ++ String.ofList shown
  | blank => "Formula is empty"
  | formulaTooLong length limit => s!"Formula length {length} exceeds the maximum of {limit}"
  | nothingPrepared => "No prepared expression to simplify"
  | nothingToSimplify => "No numeric ternary to simplify"
  | noStage firstRecord => firstRecord
  | expansionTooLong length limit =>
    s!"Expanded formula is too long ({length} characters, maximum {limit})"

end FormulaFault

/-- Why an evaluation has no value. -/
inductive Fault
  | formula (f : FormulaFault)
  | value (f : ValueFault)
deriving DecidableEq

namespace Fault

/-- The wording of a fault. -/
def message : Fault → String
  | formula f => f.message
  | value f => f.message

/-- What a report keeps of a fault. -/
def record : Fault → String
  | formula f => f.message
  | value f => f.labelled

/-- Does evaluation take the fault for the formula's own? It does unless a value was asked for
something that its kind does not have. -/
def isFormulas : ValueFault → Bool
  | f => match f.category with
    | .zeroDivision | .overflow | .value | .kind | .statistics => true
    | .member | .key | .index => false

/-- A fault that arose in evaluating a formula. -/
def ofEvaluation : Fault → Fault
  | formula f => formula f
  | value f => if isFormulas f then formula (.operation f) else value f

end Fault

/-- A result on values as one of an evaluation. -/
def liftValue {α : Type} (r : Except ValueFault α) : Except Fault α := r.mapError .value

end Haulage
