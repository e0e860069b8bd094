/-
# Tiered rates

A tiered rate charges by the tier that an amount falls in. A tier is a threshold and a tariff; an
amount belongs to the lowest tier whose threshold it does not exceed, and beyond all of them to the
highest. `tierChain` spells the rate out as a chain of choices.
-/
import Haulage.Formula.Literal
import Haulage.Number.Reader
import Haulage.Sorting

namespace Haulage

/-- A tier of a rate. -/
structure Tier where
  threshold : Number
  tariff : Number
deriving DecidableEq

namespace Tier

/-- The number that one half of a tier says; a comma may stand for the point. -/
def readHalf? (s : Text) : Option Number :=
  (readFloat? (s.strip.replaceChar ',' '.')).map .float

/-- The tier that is written as a threshold, a colon and a tariff. -/
def read? (s : Text) : Option Tier :=
  match s.splitAtChar ':' with
  | [first, second] =>
    match readHalf? first, readHalf? second with
    | some threshold, some tariff => some ⟨threshold, tariff⟩
    | _, _ => none
  | _ => none

/-- The tiers with lower thresholds first; of equal ones the first that is listed stays first. -/
def ordered (tiers : List Tier) : List Tier :=
  Id.run (sortBy (fun a b => pure (a.threshold.less b.threshold)) tiers)

end Tier

/-- The choices between tiers in order, `otherwise` standing for what is beyond all of them. -/
def choicesOf (amount : Text) (otherwise : Text) : List Tier → Text
  | [] => otherwise
  | t :: ts =>
    "((".toList ++ amount ++ ") <= ".toList ++ t.threshold.text ++ " ? ".toList ++ t.tariff.text ++
      " : ".toList ++ choicesOf amount otherwise ts ++ [')']

/-- The chain of choices that a tiered rate of an amount stands for; it needs a tier. -/
def tierChain (amount : Text) (tiers : List Tier) : Except ValueFault Text :=
  let ordered := Tier.ordered tiers
  match ordered.getLast? with
  | none => .error .noTiers
  | some highest => .ok (choicesOf amount highest.tariff.text ordered)

end Haulage
