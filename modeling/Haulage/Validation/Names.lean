/-
# The names in a formula

A name in a formula is a letter followed by letters, numerals and underscores. It is the name of a
function if, written in capitals, it is that of a shorthand or of a function of the language, and
the name of a variable if not. Text literals hold no names.
-/
import Haulage.Shorthand.Rule
import Haulage.Formula.Function

namespace Haulage

/-- The names of shorthands and functions, in capitals. -/
def knownFunctionNames : List Text :=
  (Shorthand.all.map Shorthand.name ++ Function.all.map Function.name).map
    fun name => Text.toCapitals name.toList

/-- Is the name, in letters of either case, that of a shorthand or a function? -/
def isKnownFunction (name : Text) : Bool := knownFunctionNames.contains name.toCapitals

/-- Finds names. -/
def identifiers : Finder Text := fun before c cs =>
  if startsIdentifier c && !inWord before then
    let more := cs.takeWhile isNameChar
    some ⟨more.length, c :: more⟩
  else none

/-- Finds names that an opening parenthesis follows. -/
def calledNames : Finder Text := fun before c cs =>
  match identifiers before c cs with
  | some f => if (openingLength? (cs.drop f.more)).isSome then some f else none
  | none => none

/-- The text that a value is. -/
def Value.asText : Value → Except ValueFault Text
  | .text s => .ok s
  | v => .error (.notText v.kind)

/-- The variables of a formula, in the order in which they first appear. -/
def variablesOf (s : Text) : List Text :=
  ((identifiers.findAll (blankLiterals s)).filter (!isKnownFunction ·)).eraseDups

/-- The known functions that a text calls, in the order in which they first appear. -/
def functionsOf (s : Text) : List Text :=
  ((calledNames.findAll s).filter isKnownFunction).eraseDups

/-- Is there a conditional in the text? -/
def hasConditional (s : Text) : Bool :=
  Finder.occurs (fun before c cs =>
    (headNamed Shorthand.conditional.name.toList before c cs).map fun h => ⟨h.length - 1, ()⟩) s

end Haulage
