/-
# Shorthands

A **shorthand** is a function of the spreadsheet kind that users write and the formula language does
not have. It is spelled out in the language before a formula is evaluated: a conditional as a
choice, a rounding as one to whole numbers, an average as a quotient, a fact of the calendar as its
number, and a tiered rate as a chain of choices. A call whose arguments do not fit is left as it is.
-/
import Haulage.Shorthand.Call
import Haulage.Shorthand.Tier
import Haulage.Context

namespace Haulage

/-- The functions that are spelled out. -/
inductive Shorthand
  | conditional | rounding | average | weekday | month | quarter | weekend | tieredRate
deriving DecidableEq, Repr

/-- A text with calls spelled out, and how many they were. -/
structure SpelledOut where
  text : Text
  count : Nat
deriving DecidableEq

namespace Shorthand

/-- All shorthands, in the order in which they are spelled out. -/
def all : List Shorthand :=
  [conditional, rounding, average, weekday, month, quarter, weekend, tieredRate]

/-- The name of a shorthand. -/
def name : Shorthand → String
  | conditional => "SI"
  | rounding => "REDONDEAR"
  | average => "PROMEDIO"
  | weekday => "DIASEMANA"
  | month => "MES"
  | quarter => "TRIMESTRE"
  | weekend => "ESFINDESEMANA"
  | tieredRate => "TARIFAESCALONADA"

/-- The list of shorthands is complete. -/
theorem mem_all (s : Shorthand) : s ∈ all := by cases s <;> decide

/-! ## 1. What calls stand for -/

/-- A conditional needs a condition and two alternatives. -/
def spellConditional : List Text → Option Text
  | [condition, whenTrue, whenFalse] =>
    if condition.isEmpty || whenTrue.isEmpty || whenFalse.isEmpty then none
    else some
      ('(' :: (condition ++ " ? ".toList ++ whenTrue ++ " : ".toList ++ whenFalse ++ [')']))
  | _ => none

/-- The number of places that a row of one or two digits says. -/
def readPlaces? (s : Text) : Option Nat :=
  match s.mapM decimalDigit? with
  | some [d] => some d
  | some [d, e] => some (10 * d + e)
  | _ => none

/-- A rounding needs something to round and a number of places. -/
def spellRounding : List Text → Option Text
  | [amount, places] =>
    if amount.isEmpty then none
    else (readPlaces? places).map fun n =>
      let factor := digitsOf (Nat.pow 10 n)
      "(round(".toList ++ amount ++ " * ".toList ++ factor ++ ") / ".toList ++ factor ++ [')']
  | _ => none

/-- An average needs arguments that are not empty, and not too many. -/
def spellAverage (most : Int) (arguments : List Text) : Option Text :=
  if arguments.any List.isEmpty || most < arguments.length then none
  else some ("((".toList ++ Text.join " + ".toList arguments ++ ") / ".toList ++
    digitsOf arguments.length ++ [')'])

/-- A tiered rate needs an amount and tiers, not too many. -/
def spellTieredRate (most : Int) : List Text → Option Text
  | [] => none
  | amount :: tiers =>
    if tiers.isEmpty || amount.isEmpty || most < tiers.length then none
    else match tiers.mapM Tier.read? with
      | some tiers => (tierChain amount tiers).toOption
      | none => none

/-! ## 2. Spelling out the calls in a text -/

/-- The text with finds in place of what they take, and how many there are. -/
def spellAll (find : Finder Text) (s : Text) : SpelledOut :=
  let pieces := find.pieces s
  ⟨pieces.flatMap Piece.text, (pieces.filterMap Piece.content?).length⟩

/-- The text with a fact of the calendar in place of the empty calls that ask for it; the fact is
looked up only if there are any. -/
def fillIn (name : String) (fact : Except ValueFault Int) (s : Text) :
    Except ValueFault SpelledOut :=
  let calls := emptyCalls name.toList
  if calls.occurs s then do
    let digits ← integerDigitsText (← fact)
    .ok (spellAll (fun before c cs => (calls before c cs).map fun f => ⟨f.more, digits⟩) s)
  else .ok ⟨s, 0⟩

/-- The text with the calls of one shorthand spelled out. Calls in the arguments of another are
left for the next time. -/
def spellOut (w : Surroundings) (s : Shorthand) (t : Text) : Except ValueFault SpelledOut :=
  let most := w.settings.maxFunctionArguments
  let calls spell := spellAll (spellableCalls s.name.toList spell) t
  match s with
  | conditional => .ok (calls spellConditional)
  | rounding => .ok (calls spellRounding)
  | average => .ok (calls (spellAverage most))
  | weekday => fillIn s.name (w.context.weekday w.clock) t
  | month => fillIn s.name (w.context.month w.clock) t
  | quarter => fillIn s.name (w.context.quarter w.clock) t
  | weekend => fillIn s.name (w.context.weekend w.clock) t
  | tieredRate => .ok (calls (spellTieredRate most))

end Shorthand

end Haulage
