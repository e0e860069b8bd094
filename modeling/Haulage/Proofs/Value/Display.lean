/-
# Which values can be shown

An integer is not written when it has too many digits, and nothing else keeps a value from being shown:
a list or a mapping is shown unless one of its parts is not, at any depth (`shown_failsIf`).  Which
part that is makes no difference, since the fault is always the same.
-/
import Haulage.Value.Display

namespace Haulage

/-- Somewhere in the value, or in the lists and mappings it is made of, stands an integer with more
digits than are written. -/
inductive Value.HoldsLong : Value → Prop
  | int {n : Int} (long : Nat.pow 10 ValueFault.mostDigits ≤ n.natAbs) : HoldsLong (.int n)
  | item {v : Value} {items : List Value} (mem : v ∈ items) (h : HoldsLong v) :
      HoldsLong (.list items)
  | entry {key : Text} {v : Value} {entries : List (Text × Value)} (mem : (key, v) ∈ entries)
      (h : HoldsLong v) : HoldsLong (.mapping entries)

/-- The result is the fault of a long integer if there is one, and else no fault. -/
inductive FailsIf {α : Type} (long : Prop) : Except ValueFault α → Prop
  | ok (a : α) (short : ¬ long) : FailsIf long (.ok a)
  | error (h : long) : FailsIf long (.error .tooManyDigitsToWrite)

namespace FailsIf

variable {α β γ : Type} {p q : Prop} {r : Except ValueFault α}

theorem congr (same : p ↔ q) (h : FailsIf p r) : FailsIf q r := by
  cases h with
  | ok a short => exact .ok a (mt same.mpr short)
  | error long => exact .error (same.mp long)

theorem map (f : α → β) (h : FailsIf p r) : FailsIf p (r.map f) := by
  cases h with
  | ok a short => exact .ok _ short
  | error long => exact .error long

/-- Of two parts that are shown the first that fails decides. -/
theorem both {rs : Except ValueFault β} (f : α → β → γ) (first : FailsIf p r)
    (others : FailsIf q rs) : FailsIf (p ∨ q) (r.bind fun a => rs.map (f a)) := by
  cases first with
  | error long => exact .error (.inl long)
  | ok a short =>
    cases others with
    | error long => exact .error (.inr long)
    | ok b shorts => exact .ok _ (not_or.mpr ⟨short, shorts⟩)

end FailsIf

namespace Value

@[simp] theorem holdsLong_int {n : Int} :
    HoldsLong (.int n) ↔ Nat.pow 10 ValueFault.mostDigits ≤ n.natAbs :=
  ⟨fun | .int long => long, .int⟩

@[simp] theorem holdsLong_list {items : List Value} :
    HoldsLong (.list items) ↔ ∃ v ∈ items, v.HoldsLong :=
  ⟨fun | .item mem h => ⟨_, mem, h⟩, fun ⟨_, mem, h⟩ => .item mem h⟩

@[simp] theorem holdsLong_mapping {entries : List (Text × Value)} :
    HoldsLong (.mapping entries) ↔ ∃ entry ∈ entries, entry.2.HoldsLong :=
  ⟨fun | .entry mem h => ⟨_, mem, h⟩, fun ⟨_, mem, h⟩ => .entry mem h⟩

theorem shown_list (items : List Value) : shown (.list items) =
    (shownItems items).map fun parts => '[' :: (commaSeparated parts ++ [']']) := by
  rw [shown]
  cases shownItems items <;> rfl

theorem shown_mapping (entries : List (Text × Value)) : shown (.mapping entries) =
    (shownEntries entries).map fun parts => '\x7b' :: (commaSeparated parts ++ ['\x7d']) := by
  rw [shown]
  cases shownEntries entries <;> rfl

theorem shownItems_cons (v : Value) (vs : List Value) : shownItems (v :: vs) =
    v.shown.bind fun part => (shownItems vs).map (part :: ·) := by
  rw [shownItems]
  cases v.shown <;> cases shownItems vs <;> rfl

theorem shownEntries_cons (key : Text) (v : Value) (entries : List (Text × Value)) :
    shownEntries ((key, v) :: entries) = v.shown.bind fun part =>
      (shownEntries entries).map ((key.quoted ++ ':' :: ' ' :: part) :: ·) := by
  rw [shownEntries]
  cases v.shown <;> cases shownEntries entries <;> rfl

theorem integerDigitsText_cases (n : Int) :
    HoldsLong (.int n) ∧ integerDigitsText n = .error .tooManyDigitsToWrite ∨
      ¬ HoldsLong (.int n) ∧ integerDigitsText n = .ok (integerText n) := by
  rw [holdsLong_int]
  rcases Nat.lt_or_ge n.natAbs (Nat.pow 10 ValueFault.mostDigits) with short | long
  · exact .inr ⟨Nat.not_le.mpr short, if_neg (Nat.not_le.mpr short)⟩
  · exact .inl ⟨long, if_pos long⟩

theorem integerDigitsText_failsIf (n : Int) :
    FailsIf (HoldsLong (.int n)) (integerDigitsText n) := by
  rcases integerDigitsText_cases n with ⟨long, fails⟩ | ⟨short, digits⟩
  · rw [fails]
    exact .error long
  · rw [digits]
    exact .ok _ short

mutual

/-- **A value is shown exactly if it holds no long integer.** -/
theorem shown_failsIf : (v : Value) → FailsIf v.HoldsLong v.shown
  | .null | .bool _ | .float _ | .text _ | .decimal _ | .moment _ | .date _ => .ok _ nofun
  | .int n => integerDigitsText_failsIf n
  | .list items => by
    rw [shown_list]
    exact ((shownItems_failsIf items).congr holdsLong_list.symm).map _
  | .mapping entries => by
    rw [shown_mapping]
    exact ((shownEntries_failsIf entries).congr holdsLong_mapping.symm).map _

/-- The items of a list are shown exactly if none of them holds a long integer. -/
theorem shownItems_failsIf : (vs : List Value) → FailsIf (∃ v ∈ vs, v.HoldsLong) (shownItems vs)
  | [] => .ok [] nofun
  | v :: vs => by
    rw [shownItems_cons]
    exact ((shown_failsIf v).both _ (shownItems_failsIf vs)).congr (by simp)

/-- The entries of a mapping are shown exactly if the value of none of them holds a long integer. -/
theorem shownEntries_failsIf : (entries : List (Text × Value)) →
    FailsIf (∃ entry ∈ entries, entry.2.HoldsLong) (shownEntries entries)
  | [] => .ok [] nofun
  | (key, v) :: entries => by
    rw [shownEntries_cons]
    exact ((shown_failsIf v).both _ (shownEntries_failsIf entries)).congr (by simp)

end

end Value

end Haulage
