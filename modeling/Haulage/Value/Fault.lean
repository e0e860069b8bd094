/-
# What can go wrong with a value

A `ValueFault` is the reason why an operation on values has no result. `ValueFault.message` words
it, and `ValueFault.category` files it under the family whose label stands in front of the wording
when a report names a fault that is not the formula's own.
-/
import Haulage.Value.Basic
import Haulage.Text.Display

namespace Haulage

/-- The families of faults. -/
inductive FaultCategory
  | zeroDivision | overflow | value | kind | member | statistics | key | index
deriving DecidableEq, Repr

/-- The label of a family. -/
def FaultCategory.label : FaultCategory → String
  | zeroDivision => "ZeroDivisionError"
  | overflow => "OverflowError"
  | value => "ValueError"
  | kind => "TypeError"
  | member => "AttributeError"
  | statistics => "StatisticsError"
  | key => "KeyError"
  | index => "IndexError"

/-- How a call's arguments fail to fit. -/
inductive ArgumentFault
  /-- Parameters that have no argument. -/
  | missing (parameters : List String)
  /-- Another number than the one that is taken; `most` is larger than `least` where some may be
  left out. -/
  | tooMany (least most given : Nat)
  /-- Another number than one, of a function whose only parameter has no name. -/
  | notOne (given : Nat)
deriving DecidableEq, Repr

/-- Why an operation on values has no result. -/
inductive ValueFault
  /-- A division by zero, of floats or of integers. -/
  | divisionByZero (ofFloats : Bool)
  /-- A remainder by zero. -/
  | zeroModulus
  /-- A quotient of integers beyond the floats. -/
  | quotientTooLarge
  /-- An integer beyond the floats. -/
  | integerTooLarge
  /-- A number of repetitions beyond any length. -/
  | repetitionTooLarge
  /-- A power beyond the floats. -/
  | powerTooLarge
  /-- A power or root that is no real number. -/
  | outsideDomain
  /-- An infinite float where an integer is wanted. -/
  | infiniteFloat
  /-- A float that is no number where an integer is wanted. -/
  | undefinedFloat
  /-- An infinite decimal where an integer is wanted. -/
  | infiniteDecimal
  /-- A decimal that is no number where an integer is wanted. -/
  | undefinedDecimal
  /-- A signaling decimal where a float is wanted. -/
  | signalingDecimal
  /-- Operands that an operator does not combine. -/
  | operands (operator : String) (left right : Kind)
  /-- Something put after a text or a list that is not another one. -/
  | concatenation (left right : Kind)
  /-- A text or a list repeated a number of times that is no integer. -/
  | repetition (count : Kind)
  /-- Values without an order. -/
  | unordered (operator : String) (left right : Kind)
  /-- A sign in front of a value that has none. -/
  | unsigned (sign : String) (operand : Kind)
  /-- The size of a value that has none. -/
  | sizeless (operand : Kind)
  /-- Something that is no real number. -/
  | notReal (operand : Kind)
  /-- Something that cannot become an integer. -/
  | notInteger (operand : Kind)
  /-- A text that is no integer. -/
  | malformedInteger (literal : Text)
  /-- A text of too many digits to become an integer. -/
  | tooManyDigitsToRead (count : Nat)
  /-- An integer of too many digits to be written. -/
  | tooManyDigitsToWrite
  /-- Arguments that do not fit a function. -/
  | arguments (function : String) (fault : ArgumentFault)
  /-- The greatest or least of no values. -/
  | noValues (function : String)
  /-- A statistic of too few values. -/
  | tooFewPoints (wording : String)
  /-- A statistic of something that is no number. -/
  | notFraction (operand : Kind)
  /-- The spread of values of which one is not finite. -/
  | notFiniteSpread
  /-- A value that has no such member. -/
  | noMember (operand : Kind) (member : String)
  /-- A value that has no items. -/
  | notIterable (operand : Kind)
  /-- A value that has no length. -/
  | noLength (operand : Kind)
  /-- A value where a text is wanted. -/
  | notText (operand : Kind)
  /-- A name that no setting has. -/
  | unknownSetting (name : Text)
  /-- A tiered rate without tiers. -/
  | noTiers
  /-- A batch item without a formula. -/
  | noFormula
deriving DecidableEq

namespace ArgumentFault

/-- Parameter names, which are one or two, as a list in a sentence. -/
def namesInSentence (names : List String) : String :=
  String.intercalate " and " (names.map fun name => s!"'{name}'")

/-- The wording of an argument fault, after the function's name. -/
def message : ArgumentFault → String
  | missing parameters =>
    let noun := if parameters.length = 1 then "argument" else "arguments"
    s!"missing {parameters.length} required positional {noun}: {namesInSentence parameters}"
  | tooMany least most given =>
    let count := if least = most then s!"{most}" else s!"from {least} to {most}"
    let noun := if most = 1 then "argument" else "arguments"
    let verb := if given = 1 then "was" else "were"
    s!"takes {count} positional {noun} but {given} {verb} given"
  | notOne given => s!"takes exactly one argument ({given} given)"

end ArgumentFault

namespace ValueFault

/-- The family of a fault. -/
def category : ValueFault → FaultCategory
  | divisionByZero _ | zeroModulus => .zeroDivision
  | quotientTooLarge | integerTooLarge | repetitionTooLarge | powerTooLarge | infiniteFloat
  | infiniteDecimal => .overflow
  | outsideDomain | undefinedFloat | undefinedDecimal | signalingDecimal | malformedInteger _
  | tooManyDigitsToRead _ | tooManyDigitsToWrite | noValues _ | noFormula => .value
  | operands .. | concatenation .. | repetition _ | unordered .. | unsigned .. | sizeless _
  | notReal _ | notInteger _ | arguments .. | notFraction _ | notIterable _ | noLength _
  | notText _ => .kind
  | tooFewPoints _ => .statistics
  | notFiniteSpread | noMember .. => .member
  | unknownSetting _ => .key
  | noTiers => .index

/-- The greatest number of digits of an integer that is read or written as text. -/
def mostDigits : Nat := 4300

/-- The wording of a fault. -/
def message : ValueFault → String
  | divisionByZero ofFloats => if ofFloats then "float division by zero" else "division by zero"
  | zeroModulus => "mod by zero"
  | quotientTooLarge => "integer division result too large for a float"
  | integerTooLarge => "int too large to convert to float"
  | repetitionTooLarge => "cannot fit 'int' into an index-sized integer"
  | powerTooLarge => "math range error"
  | outsideDomain => "math domain error"
  | infiniteFloat => "cannot convert float infinity to integer"
  | undefinedFloat => "cannot convert float NaN to integer"
  | infiniteDecimal => "cannot convert Infinity to integer"
  | undefinedDecimal => "cannot convert NaN to integer"
  | signalingDecimal => "cannot convert signaling NaN to float"
  | operands operator left right =>
    s!"unsupported operand type(s) for {operator}: '{left.name}' and '{right.name}'"
  | concatenation left right =>
    s!"can only concatenate {left.name} (not \"{right.name}\") to {left.name}"
  | repetition count => s!"can't multiply sequence by non-int of type '{count.name}'"
  | unordered operator left right =>
    s!"'{operator}' not supported between instances of '{left.name}' and '{right.name}'"
  | unsigned sign operand => s!"bad operand type for unary {sign}: '{operand.name}'"
  | sizeless operand => s!"bad operand type for abs(): '{operand.name}'"
  | notReal operand => s!"must be real number, not {operand.name}"
  | notInteger operand =>
    "int() argument must be a string, a bytes-like object or a real number, not " ++
      s!"'{operand.name}'"
  | malformedInteger literal =>
    "invalid literal for int() with base 10: " ++ String.ofList (literal.quoted.take 200)
  | tooManyDigitsToRead count =>
    s!"Exceeds the limit ({mostDigits} digits) for integer string conversion: value has " ++
      s!"{count} digits; use sys.set_int_max_str_digits() to increase the limit"
  | tooManyDigitsToWrite =>
    s!"Exceeds the limit ({mostDigits} digits) for integer string conversion; " ++
      "use sys.set_int_max_str_digits() to increase the limit"
  | arguments function fault => s!"{function}() {fault.message}"
  | noValues function => s!"{function}() arg is an empty sequence"
  | tooFewPoints wording => wording
  | notFraction operand => s!"can't convert type '{operand.shortName}' to numerator/denominator"
  | notFiniteSpread => "'float' object has no attribute 'numerator'"
  | noMember operand member => s!"'{operand.name}' object has no attribute '{member}'"
  | notIterable operand => s!"'{operand.name}' object is not iterable"
  | noLength operand => s!"object of type '{operand.name}' has no len()"
  | notText operand => s!"expected string or bytes-like object, got '{operand.name}'"
  | unknownSetting name => String.ofList name.quoted
  | noTiers => "list index out of range"
  | noFormula => "item has no formula"

/-- The wording with the family's label in front. -/
def labelled (f : ValueFault) : String := s!"{f.category.label}: {f.message}"

end ValueFault

end Haulage
