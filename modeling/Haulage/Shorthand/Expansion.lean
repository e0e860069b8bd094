/-
# Spelling out a formula

A pass spells out every shorthand once, one kind after the other. Nested calls need further passes,
so passes are repeated until one finds nothing to spell out, or the limit of passes is reached.
After each pass the formula must not be longer than allowed: nested tiered rates repeat their amount
once per tier, and would grow without bound.
-/
import Haulage.Shorthand.Rule
import Haulage.Formula.Fault

namespace Haulage

/-- The text after every shorthand was spelled out once. -/
def expandOnce (w : Surroundings) (s : Text) : Except ValueFault SpelledOut :=
  Shorthand.all.foldlM (fun done shorthand => do
    let next ← shorthand.spellOut w done.text
    .ok ⟨next.text, done.count + next.count⟩) ⟨s, 0⟩

/-- The text after at most so many passes. -/
def expandWithin (w : Surroundings) : Nat → Text → Except Fault Text
  | 0, s => .ok s
  | passes + 1, s =>
    match expandOnce w s with
    | .error f => .error (.value f)
    | .ok next =>
      if w.settings.maxExpandedLength < next.text.length then
        .error (.formula (.expansionTooLong next.text.length w.settings.maxExpandedLength))
      else if next.count = 0 then .ok next.text
      else expandWithin w passes next.text

/-- The number of passes: the one that is asked for, or else that of the settings. -/
def passLimit (w : Surroundings) (asked : Option Int) : Nat :=
  match asked with
  | none | some 0 => w.settings.maxPasses.toNat
  | some n => n.toNat

/-- A formula spelled out. What counts as false is no formula and stays; anything else must be a
text, unless no pass is allowed. -/
def expand (w : Surroundings) (asked : Option Int) (formula : Value) : Except Fault Value :=
  if !formula.isTruthy then .ok formula
  else match formula, passLimit w asked with
    | .text s, passes => (expandWithin w passes s).map .text
    | v, 0 => .ok v
    | v, _ => .error (.value (.notText v.kind))

end Haulage
