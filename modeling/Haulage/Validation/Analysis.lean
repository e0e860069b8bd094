/-
# Analysing a formula

A description of a formula for the person who writes it: the names and operators in it, how complex
it is, what looks like a mistake, and what could be done better. Nothing is evaluated, and a text
that is no formula is described just the same.
-/
import Haulage.Validation.Names
import Haulage.Context
import Haulage.Value.Items

namespace Haulage

/-! ## 1. Operators -/

/-- Is the character one of an operator? -/
def isOperatorChar (c : Char) : Bool := "+-*/%^<>=!?:".toList.contains c

/-- Is the character an arithmetic operator? -/
def isArithmeticChar (c : Char) : Bool := "+-*/%^".toList.contains c

/-- The characters of operators in a text, in the order in which they first appear. -/
def operatorsOf (s : Text) : List Char := (s.filter isOperatorChar).eraseDups

/-- Do two arithmetic operators follow each other? -/
def hasAdjacentOperators : Text → Bool
  | c :: d :: cs => isArithmeticChar c && isArithmeticChar d || hasAdjacentOperators (d :: cs)
  | _ => false

/-- Does a text start, after blanks, with a zero that is not the start of a longer number? -/
def startsWithZero (s : Text) : Bool :=
  match s.dropWhile isBlank with
  | '0' :: cs => !cs.head?.any fun c => isDecimalDigit c || c == '.' || c == ','
  | _ => false

/-- Is there a division by a literal zero? -/
def dividesByZero : Text → Bool
  | [] => false
  | c :: cs => c == '/' && startsWithZero cs || dividesByZero cs

/-! ## 2. Complexity -/

/-- What makes a formula complex. -/
inductive ComplexityFactor
  | long | nested | conditional | manyVariables
deriving DecidableEq, Repr

namespace ComplexityFactor

/-- The wording of a factor. -/
def wording : ComplexityFactor → String
  | long => "long formula"
  | nested => "nested functions"
  | conditional => "conditional logic"
  | manyVariables => "many variables"

/-- How much a factor counts. -/
def weight : ComplexityFactor → Nat
  | long => 2
  | nested => 3
  | conditional => 2
  | manyVariables => 2

/-- Does the factor apply to a formula? -/
def applies (s : Text) (used : List Text) : ComplexityFactor → Bool
  | long => 100 < s.length
  | nested => 3 < s.count '('
  | conditional => hasConditional s
  | manyVariables => 8 < used.length

/-- The factors that apply to a formula. -/
def of (s : Text) (used : List Text) : List ComplexityFactor :=
  [long, nested, conditional, manyVariables].filter (applies s used)

/-- How much factors count together. -/
def score (factors : List ComplexityFactor) : Nat :=
  factors.foldl (fun total f => total + f.weight) 0

end ComplexityFactor

/-- The word for a score. -/
def complexityLevel (score : Nat) : String :=
  if score ≤ 2 then "low" else if score ≤ 5 then "medium" else if score ≤ 8 then "high"
  else "very high"

/-! ## 3. Warnings and suggestions -/

/-- What looks like a mistake. -/
inductive Warning
  | unbalanced | adjacentOperators | divisionByZero | veryLong
deriving DecidableEq, Repr

namespace Warning

/-- The wording of a warning. -/
def wording : Warning → String
  | unbalanced => "Unbalanced parentheses"
  | adjacentOperators => "Consecutive operators"
  | divisionByZero => "Possible division by zero"
  | veryLong => "Formula is very long, consider simplifying it"

/-- Does the warning apply to a formula? -/
def applies (s : Text) : Warning → Bool
  | unbalanced => s.count '(' != s.count ')'
  | adjacentOperators => hasAdjacentOperators s
  | divisionByZero => dividesByZero s
  | veryLong => 500 < s.length

/-- The warnings that apply to a formula. -/
def of (s : Text) : List Warning :=
  [unbalanced, adjacentOperators, divisionByZero, veryLong].filter (applies s)

end Warning

/-- What could be done better. -/
inductive Suggestion
  | split | useValue | document | keepInRange | guardDivisions
deriving DecidableEq, Repr

namespace Suggestion

/-- The wording of a suggestion. -/
def wording : Suggestion → String
  | split => "Consider splitting this formula into several simpler ones"
  | useValue => "Consider using \"Valor\" as the base of the calculation"
  | document => "With this many variables, make sure the formula is well documented"
  | keepInRange => "Consider MAX() or MIN() to keep values within a valid range"
  | guardDivisions => "Guard divisions with SI() so the divisor is never zero"

/-- Is the function one that keeps a value in a range? -/
def isBounding (name : Text) : Bool :=
  name.toCapitals == "MAX".toList || name.toCapitals == "MIN".toList

/-- Does the suggestion apply to a formula? -/
def applies (s : Text) (used functions : List Text) : Suggestion → Bool
  | split => 200 < s.length
  | useValue => !used.contains Quantity.value.name.toList
  | document => 5 < used.length
  | keepInRange => !functions.any isBounding
  | guardDivisions => s.contains '/' && !hasConditional s

/-- The suggestions that apply to a formula. -/
def of (s : Text) (used functions : List Text) : List Suggestion :=
  [split, useValue, document, keepInRange, guardDivisions].filter (applies s used functions)

end Suggestion

/-! ## 4. The analysis -/

/-- The description of a formula. -/
structure Analysis where
  length : Nat
  used : List Text
  functions : List Text
  operators : List Char
  hasParentheses : Bool
  hasConditionals : Bool
  factors : List ComplexityFactor
  warnings : List Warning
  suggestions : List Suggestion

namespace Analysis

/-- The description of a text. -/
def ofText (s : Text) : Analysis :=
  let used := variablesOf s
  let functions := functionsOf s
  { length := s.length
    used := used
    functions := functions
    operators := operatorsOf s
    hasParentheses := s.contains '(' || s.contains ')'
    hasConditionals := hasConditional s
    factors := ComplexityFactor.of s used
    warnings := Warning.of s
    suggestions := Suggestion.of s used functions }

/-- The description of a formula; one that counts as false is described as an empty text. -/
def ofFormula (formula : Value) : Except ValueFault Analysis :=
  if formula.isTruthy then formula.asText.map ofText else .ok (ofText [])

/-- The description as a value. -/
def toValue (a : Analysis) : Value :=
  let score := ComplexityFactor.score a.factors
  .record [("length", .int a.length), ("variables", .texts a.used),
    ("functions", .texts a.functions), ("operators", .texts (a.operators.map ([·]))),
    ("has_parentheses", .bool a.hasParentheses), ("has_conditionals", .bool a.hasConditionals),
    ("complexity", .ofString (complexityLevel score)), ("complexity_score", .int score),
    ("complexity_factors", .list (a.factors.map fun f => .ofString f.wording)),
    ("warnings", .list (a.warnings.map fun w => .ofString w.wording)),
    ("suggestions", .list (a.suggestions.map fun s => .ofString s.wording))]

end Analysis

end Haulage
