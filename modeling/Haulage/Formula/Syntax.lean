/-
# Expressions

The syntax tree of a formula. A call keeps the function's name as it is written; what it means is
up to evaluation.
-/
import Haulage.Formula.Token

namespace Haulage

/-- The signs in front of an operand. -/
inductive Sign
  | plus | minus
deriving DecidableEq, Repr

/-- The operator token that a sign is written with. -/
def Sign.operator : Sign → Operator
  | plus => .plus
  | minus => .minus

/-- An expression. -/
inductive Expr
  | number (x : Float)
  | text (s : Text)
  | name (s : Text)
  | signed (sign : Sign) (operand : Expr)
  | binary (operator : Operator) (left right : Expr)
  | conditional (condition whenTrue whenFalse : Expr)
  | call (function : Text) (arguments : List Expr)

end Haulage
