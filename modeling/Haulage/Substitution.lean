/-
# Inlining variables

`inlineLiterals` puts literals in place of variable names. Names are whole words of the formula: a
longer one goes before a shorter one that it begins with, nothing inside a text literal is touched,
and what has been put in is not searched again. A comma between two digits is a decimal point of the
user's country and becomes one.
-/
import Haulage.Formula.Literal
import Haulage.Formula.Datum
import Haulage.Text.Word

namespace Haulage

/-- Finds commas between two digits, and makes points of them. -/
def decimalCommas : Finder Text := fun before c cs =>
  if c == ',' && before.any isDecimalDigit && cs.head?.any isDecimalDigit then some ⟨0, ['.']⟩
  else none

/-- Does the word stand at the start of a text, with no letter that would belong to it on either
side? -/
def standsAt (word : Text) (before : Option Char) (s : Text) : Bool :=
  word.isPrefixOf s && isBoundary before s.head? &&
    isBoundary word.getLast? (s.drop word.length).head?

/-- Finds the names of the first entry that stands at a place, and puts its literal there. -/
def namesIn (literals : List (Text × Text)) : Finder Text := fun before c cs =>
  (literals.find? fun (name, _) => standsAt name before (c :: cs)).map fun (name, literal) =>
    ⟨name.length - 1, literal⟩

/-- The entries whose name is not empty, those with longer names first. -/
def longestFirst (literals : List (Text × Text)) : List (Text × Text) :=
  (literals.filter fun (name, _) => !name.isEmpty).mergeSort fun a b => b.1.length ≤ a.1.length

/-- The formula with literals in place of names, and points in place of decimal commas. -/
def inlineLiterals (literals : List (Text × Text)) (s : Text) : Text :=
  let names := longestFirst literals
  outsideLiterals (fun s => (namesIn names).replaceAll (decimalCommas.replaceAll s)) s

/-- The literals of variables. -/
def literalsOf (bindings : List (Text × Value)) : Except ValueFault (List (Text × Text)) :=
  bindings.mapM fun (name, v) => v.literal.map fun literal => (name, literal)

/-- The literals of variables that were made ready for a formula. -/
def dataLiterals (data : List (Text × Datum)) : List (Text × Text) :=
  data.map fun (name, d) => (name, d.literal)

end Haulage
