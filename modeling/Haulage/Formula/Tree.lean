/-
# Trees from outside

A tree that another program hands over need not be an expression: a leaf may be a value of any kind,
an operator may be one that joins no operands, and a node may be nothing that is known.
`Tree.evaluate` computes what can be computed; on trees that come from expressions it is
`Expr.evaluate`, as `Tree.eval_ofExpr` says.
-/
import Haulage.Formula.Evaluation

namespace Haulage

/-- A tree as it is handed over. -/
inductive Tree
  | leaf (v : Value)
  | name (s : Text)
  | signed (sign : Sign) (operand : Tree)
  | binary (operator : Operator) (left right : Tree)
  | foreign (operator : String) (left right : Tree)
  | conditional (condition whenTrue whenFalse : Tree)
  | call (function : Text) (arguments : List Tree)
  | unknown
deriving Inhabited

namespace Tree

mutual

/-- The value of a tree. -/
def eval (bindings : Bindings) : Tree → Except Fault Value
  | leaf v => .ok v
  | name s =>
    match bindings.lookup s with
    | some v => .ok v
    | none => .error (.formula (.unknownVariable s))
  | call function arguments =>
    match calledFunction? function with
    | none => .error (.formula (.unknownFunction function))
    | some f =>
      match evalAll bindings arguments with
      | .error fault => .error fault
      | .ok vs => f.apply vs
  | conditional condition whenTrue whenFalse =>
    match eval bindings condition with
    | .error fault => .error fault
    | .ok v =>
      match conditionHolds v with
      | .error fault => .error fault
      | .ok true => eval bindings whenTrue
      | .ok false => eval bindings whenFalse
  | signed sign operand =>
    match eval bindings operand with
    | .error fault => .error fault
    | .ok v => liftValue (sign.apply v)
  | binary operator left right =>
    match eval bindings left with
    | .error fault => .error fault
    | .ok a =>
      match eval bindings right with
      | .error fault => .error fault
      | .ok b => liftValue (operator.apply a b)
  | foreign operator left right =>
    match eval bindings left with
    | .error fault => .error fault
    | .ok _ =>
      match eval bindings right with
      | .error fault => .error fault
      | .ok _ => .error (.formula (.unsupportedOperator operator))
  | unknown => .error (.formula .notExpression)

/-- The values of arguments. -/
def evalAll (bindings : Bindings) : List Tree → Except Fault (List Value)
  | [] => .ok []
  | t :: ts =>
    match eval bindings t with
    | .error fault => .error fault
    | .ok v =>
      match evalAll bindings ts with
      | .error fault => .error fault
      | .ok vs => .ok (v :: vs)

end

/-- The value of a tree, faults of operations being the formula's own. -/
def evaluate (bindings : Bindings) (t : Tree) : Except Fault Value :=
  (t.eval bindings).mapError Fault.ofEvaluation

mutual

/-- An expression as a tree. -/
def ofExpr : Expr → Tree
  | .number x => leaf (.float x)
  | .text s => leaf (.text s)
  | .name s => name s
  | .signed sign operand => signed sign (ofExpr operand)
  | .binary operator left right => binary operator (ofExpr left) (ofExpr right)
  | .conditional condition whenTrue whenFalse =>
    conditional (ofExpr condition) (ofExpr whenTrue) (ofExpr whenFalse)
  | .call function arguments => call function (ofExprs arguments)

/-- Expressions as trees. -/
def ofExprs : List Expr → List Tree
  | [] => []
  | e :: es => ofExpr e :: ofExprs es

end

mutual

/-- An expression and its tree have the same value. -/
theorem eval_ofExpr (bindings : Bindings) (e : Expr) :
    (ofExpr e).eval bindings = e.eval bindings := by
  cases e with
  | number x => rfl
  | text s => rfl
  | name s => rfl
  | signed sign operand =>
    rw [ofExpr, eval, eval_ofExpr bindings operand]
    rfl
  | binary operator left right =>
    rw [ofExpr, eval, eval_ofExpr bindings left, eval_ofExpr bindings right]
    rfl
  | conditional condition whenTrue whenFalse =>
    rw [ofExpr, eval, eval_ofExpr bindings condition, eval_ofExpr bindings whenTrue,
      eval_ofExpr bindings whenFalse]
    rfl
  | call function arguments =>
    rw [ofExpr, eval, evalAll_ofExprs bindings arguments]
    rfl

/-- Expressions and their trees have the same values. -/
theorem evalAll_ofExprs (bindings : Bindings) (es : List Expr) :
    evalAll bindings (ofExprs es) = Expr.evalAll bindings es := by
  cases es with
  | nil => rfl
  | cons e es =>
    rw [ofExprs, evalAll, eval_ofExpr bindings e, evalAll_ofExprs bindings es]
    rfl

end

end Tree

end Haulage
