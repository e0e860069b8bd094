/-
# Comparing values

Numbers compare by their exact values, texts and lists by their first difference. Values of
different families are never equal and have no order.
-/
import Haulage.Value.Conversion

namespace Haulage

/-- The relations of order. -/
inductive Relation
  | less | atMost | greater | atLeast
deriving DecidableEq, Repr

namespace Relation

/-- How a relation is written. -/
def spelling : Relation → String
  | less => "<"
  | atMost => "<="
  | greater => ">"
  | atLeast => ">="

/-- Does the relation hold between two things in this order? -/
def holds : Relation → Ordering → Bool
  | less, o => o == .lt
  | atMost, o => o != .gt
  | greater, o => o == .gt
  | atLeast, o => o != .lt

end Relation

/-- The order of two texts: by the codes of the characters at their first difference. -/
def compareTexts : Text → Text → Ordering
  | [], [] => .eq
  | [], _ :: _ => .lt
  | _ :: _, [] => .gt
  | c :: cs, d :: ds =>
    match compare c.toNat d.toNat with
    | .eq => compareTexts cs ds
    | o => o

namespace Value

mutual

/-- Are the values equal? -/
def equals : Value → Value → Bool
  | null, null => true
  | text s, text t => s == t
  | decimal d, decimal e => d == e
  | moment a, moment b => a == b
  | date a, date b => a == b
  | list xs, list ys => equalItems xs ys
  | mapping xs, mapping ys => xs.length == ys.length && equalEntries xs ys
  | a, b =>
    match a.number?, b.number? with
    | some m, some n => m.compare? n == some .eq
    | _, _ => false

/-- Are the items equal one by one? -/
def equalItems : List Value → List Value → Bool
  | [], [] => true
  | x :: xs, y :: ys => equals x y && equalItems xs ys
  | _, _ => false

/-- Has the second mapping an equal entry for each one of the first? -/
def equalEntries : List (Text × Value) → List (Text × Value) → Bool
  | [], _ => true
  | (key, x) :: xs, ys =>
    (match ys.lookup key with
      | some y => equals x y
      | none => false) && equalEntries xs ys

end

mutual

/-- Does the relation hold between the values? -/
def related (r : Relation) : Value → Value → Except ValueFault Bool
  | text s, text t => .ok (r.holds (compareTexts s t))
  | list xs, list ys => relatedItems r xs ys
  | a, b =>
    match a.number?, b.number? with
    | some m, some n =>
      match m.compare? n with
      | some o => .ok (r.holds o)
      | none => .ok false
    | _, _ => .error (.unordered r.spelling a.kind b.kind)

/-- Does the relation hold between the lists? Their first different items decide, or else their
lengths. -/
def relatedItems (r : Relation) : List Value → List Value → Except ValueFault Bool
  | x :: xs, y :: ys => if equals x y then relatedItems r xs ys else related r x y
  | xs, ys => .ok (r.holds (compare xs.length ys.length))

end

/-- Is the first value below the second? -/
def isLess (a b : Value) : Except ValueFault Bool := related .less a b

end Value

end Haulage
