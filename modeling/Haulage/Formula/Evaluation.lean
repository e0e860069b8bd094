/-
# The value of a formula

`Expr.eval` computes the value of an expression from the values of its variables. Operands and
arguments are evaluated from left to right, and of a choice only the alternative that its condition
selects.

`evaluateText` is the value of a text that has no variables left: it reads the text, evaluates it,
and accepts the result only if it is a finite number.
-/
import Haulage.Formula.Function
import Haulage.Formula.Nesting
import Haulage.Text.CaseFold
import Haulage.Value.Display

namespace Haulage

/-- The values of variables. -/
abbrev Bindings := List (Text × Value)

namespace Operator

/-- The result of an operator. -/
def apply : Operator → Value → Value → Except ValueFault Value
  | plus, a, b => a.add b
  | minus, a, b => a.subtract b
  | times, a, b => a.multiply b
  | divide, a, b => a.divide b
  | modulo, a, b => a.modulo b
  | power, a, b => a.raise b
  | greater, a, b => (Value.related .greater a b).map .bool
  | less, a, b => (Value.related .less a b).map .bool
  | atLeast, a, b => (Value.related .atLeast a b).map .bool
  | atMost, a, b => (Value.related .atMost a b).map .bool
  | equal, a, b => .ok (.bool (a.equals b))
  | notEqual, a, b => .ok (.bool (!a.equals b))

end Operator

/-- The result of a sign. -/
def Sign.apply : Sign → Value → Except ValueFault Value
  | plus, v => v.affirm
  | minus, v => v.negate

/-- The function that a formula calls by a name, in letters of either case. -/
def calledFunction? (name : Text) : Option Function := Function.ofName? name.toSmall

/-- Which alternative does a condition select? A text selects none. -/
def conditionHolds : Value → Except Fault Bool
  | .text _ => .error (.formula .textCondition)
  | v => .ok v.isTruthy

namespace Expr

mutual

/-- The value of an expression. -/
def eval (bindings : Bindings) : Expr → Except Fault Value
  | number x => .ok (.float x)
  | text s => .ok (.text s)
  | name s =>
    match bindings.lookup s with
    | some v => .ok v
    | none => .error (.formula (.unknownVariable s))
  | call function arguments =>
    match calledFunction? function with
    | none => .error (.formula (.unknownFunction function))
    | some f =>
      match evalAll bindings arguments with
      | .error fault => .error fault
      | .ok vs => f.apply vs
  | conditional condition whenTrue whenFalse =>
    match eval bindings condition with
    | .error fault => .error fault
    | .ok v =>
      match conditionHolds v with
      | .error fault => .error fault
      | .ok true => eval bindings whenTrue
      | .ok false => eval bindings whenFalse
  | signed sign operand =>
    match eval bindings operand with
    | .error fault => .error fault
    | .ok v => liftValue (sign.apply v)
  | binary operator left right =>
    match eval bindings left with
    | .error fault => .error fault
    | .ok a =>
      match eval bindings right with
      | .error fault => .error fault
      | .ok b => liftValue (operator.apply a b)

/-- The values of arguments. -/
def evalAll (bindings : Bindings) : List Expr → Except Fault (List Value)
  | [] => .ok []
  | e :: es =>
    match eval bindings e with
    | .error fault => .error fault
    | .ok v =>
      match evalAll bindings es with
      | .error fault => .error fault
      | .ok vs => .ok (v :: vs)

end

/-- The value of an expression, faults of operations being the formula's own. -/
def evaluate (bindings : Bindings) (e : Expr) : Except Fault Value :=
  (e.eval bindings).mapError Fault.ofEvaluation

end Expr

/-- The float that a result is, if it is a finite number. Truth values are none. -/
def finiteNumber (v : Value) : Except Fault Float :=
  match v with
  | .int n => liftValue (Number.int n).toFloat
  | .float x => if x.isFinite then .ok x else .error (.formula (.notFinite (floatText x)))
  | v =>
    match v.shown with
    | .ok shown => .error (.formula (.notNumber shown))
    | .error f => .error (.value f)

/-- The finite number that a text without variables evaluates to. -/
def evaluateText (s : Text) : Except Fault Float :=
  match readExpression s with
  | .error f => .error (.formula (.unreadable f))
  | .ok e =>
    match e.evaluate [] with
    | .error fault => .error fault
    | .ok v => finiteNumber v

end Haulage
