/-
# The sign of a zero

Two floats are zero, and they compare as equal.  `dropZeroSign` makes them one.  What is computed
from floats depends on the sign of a zero only in the sign of a zero: every operation comes to the
same, up to that sign, when the signs of its zeros are dropped first.  The one exception, a quotient
by zero, is no result of the formula language.

All of it is read off what floats come apart into.  `Alike` relates two that are the same or are both
zeros.
-/
import Haulage.Proofs.Number.Order
import Haulage.Number.Power

namespace Haulage

open Float.Model (UnpackedFloat Format)

/-- The float, minus zero made zero. -/
def dropZeroSign (x : Float) : Float := if x == 0 then 0 else x

/-! ## 1. Floats that are the same up to the sign of a zero -/

/-- The same, or both zeros. -/
inductive Alike : UnpackedFloat → UnpackedFloat → Prop
  | same (u : UnpackedFloat) : Alike u u
  | zeros (s t : UnpackedFloat.Sign) : Alike (.zero s) (.zero t)

theorem eq_zero_or_of_unpack {x : Float} {s : UnpackedFloat.Sign} (h : x.toModel.unpack = .zero s) :
    x = 0 ∨ x = -0 := by
  cases s with
  | positive => exact .inl (eq_of_unpack_eq h)
  | negative => exact .inr (eq_of_unpack_eq h)

theorem eq_zero_or_of_beq {x : Float} (h : (x == 0) = true) : x = 0 ∨ x = -0 := by
  rcases eq_or_zero_of_compare_eq ((beq_iff_compare x 0).mp h) with rfl | ⟨s, -, hs, -⟩
  · exact .inl rfl
  · exact eq_zero_or_of_unpack hs

/-- Dropping its sign leaves a float as it is unless it is minus zero. -/
theorem dropZeroSign_eq_or (x : Float) :
    dropZeroSign x = x ∨ x = -0 ∧ dropZeroSign x = 0 := by
  unfold dropZeroSign
  split
  · rename_i zero
    rcases eq_zero_or_of_beq zero with rfl | rfl
    · exact .inl rfl
    · exact .inr ⟨rfl, rfl⟩
  · exact .inl rfl

theorem alike_dropZeroSign (x : Float) :
    Alike x.toModel.unpack (dropZeroSign x).toModel.unpack := by
  rcases dropZeroSign_eq_or x with same | ⟨rfl, zero⟩
  · rw [same]
    exact .same _
  · rw [zero]
    exact .zeros .negative .positive

/-- Floats made of what is alike differ in the sign of a zero at most. -/
theorem Alike.dropZeroSign_eq {u v : UnpackedFloat} (h : Alike u v) :
    dropZeroSign (.ofModel (.pack u)) = dropZeroSign (.ofModel (.pack v)) := by
  cases h with
  | same => rfl
  | zeros s t => cases s <;> cases t <;> rfl

/-- Floats that compare as equal are the same up to the sign of a zero. -/
theorem dropZeroSign_eq_of_beq {x y : Float} (h : (x == y) = true) :
    dropZeroSign x = dropZeroSign y := by
  rcases eq_or_zero_of_compare_eq ((beq_iff_compare x y).mp h) with rfl | ⟨s, t, hx, hy⟩
  · rfl
  · rcases eq_zero_or_of_unpack hx with rfl | rfl <;>
      rcases eq_zero_or_of_unpack hy with rfl | rfl <;> rfl

/-- What is the same of both zeros does not see the sign of one. -/
theorem apply_dropZeroSign {β : Type} {f : Float → β} (same : f (-0) = f 0) (x : Float) :
    f (dropZeroSign x) = f x := by
  rcases dropZeroSign_eq_or x with unchanged | ⟨rfl, zero⟩
  · rw [unchanged]
  · rw [zero, same]

@[simp] theorem dropZeroSign_dropZeroSign (x : Float) :
    dropZeroSign (dropZeroSign x) = dropZeroSign x :=
  apply_dropZeroSign rfl x

/-! ## 2. Operations -/

namespace Alike

variable {u v u' v' w : UnpackedFloat}

theorem trans (h : Alike u v) (h' : Alike v w) : Alike u w := by
  cases h with
  | same => exact h'
  | zeros s t =>
    cases h' with
    | same => exact .zeros s t
    | zeros t r => exact .zeros s r

/-- An operation keeps floats alike if it does so in either argument. -/
theorem map₂ {op : UnpackedFloat → UnpackedFloat → UnpackedFloat}
    (left : ∀ s t v, Alike (op (.zero s) v) (op (.zero t) v))
    (right : ∀ u s t, Alike (op u (.zero s)) (op u (.zero t))) (hu : Alike u u')
    (hv : Alike v v') : Alike (op u v) (op u' v') := by
  refine Alike.trans (v := op u' v) ?_ ?_
  · cases hu with
    | same => exact .same _
    | zeros s t => exact left s t v
  · cases hv with
    | same => exact .same _
    | zeros s t => exact right u' s t

theorem add_left (s t : UnpackedFloat.Sign) (v : UnpackedFloat) :
    Alike (.add .binary64 (.zero s) v) (.add .binary64 (.zero t) v) := by
  cases v with
  | zero r => cases s <;> cases t <;> cases r <;> exact .zeros _ _
  | _ => exact .same _

theorem add_right (u : UnpackedFloat) (s t : UnpackedFloat.Sign) :
    Alike (.add .binary64 u (.zero s)) (.add .binary64 u (.zero t)) := by
  cases u with
  | zero r => cases s <;> cases t <;> cases r <;> exact .zeros _ _
  | _ => exact .same _

theorem sub_left (s t : UnpackedFloat.Sign) (v : UnpackedFloat) :
    Alike (.sub .binary64 (.zero s) v) (.sub .binary64 (.zero t) v) := by
  cases v with
  | zero r => cases s <;> cases t <;> cases r <;> exact .zeros _ _
  | _ => exact .same _

theorem sub_right (u : UnpackedFloat) (s t : UnpackedFloat.Sign) :
    Alike (.sub .binary64 u (.zero s)) (.sub .binary64 u (.zero t)) := by
  cases u with
  | zero r => cases s <;> cases t <;> cases r <;> exact .zeros _ _
  | _ => exact .same _

theorem mul_left (s t : UnpackedFloat.Sign) (v : UnpackedFloat) :
    Alike (.mul .binary64 (.zero s) v) (.mul .binary64 (.zero t) v) := by
  cases v with
  | zero | finite => exact .zeros _ _
  | _ => exact .same _

theorem mul_right (u : UnpackedFloat) (s t : UnpackedFloat.Sign) :
    Alike (.mul .binary64 u (.zero s)) (.mul .binary64 u (.zero t)) := by
  cases u with
  | zero | finite => exact .zeros _ _
  | _ => exact .same _

theorem div_left (s t : UnpackedFloat.Sign) (v : UnpackedFloat) :
    Alike (.div .binary64 (.zero s) v) (.div .binary64 (.zero t) v) := by
  cases v with
  | infinity | finite => exact .zeros _ _
  | _ => exact .same _

end Alike

section Operations

variable (x y : Float)

theorem dropZeroSign_add :
    dropZeroSign (dropZeroSign x + dropZeroSign y) = dropZeroSign (x + y) :=
  ((alike_dropZeroSign x).map₂ Alike.add_left Alike.add_right
    (alike_dropZeroSign y)).dropZeroSign_eq.symm

theorem dropZeroSign_sub :
    dropZeroSign (dropZeroSign x - dropZeroSign y) = dropZeroSign (x - y) :=
  ((alike_dropZeroSign x).map₂ Alike.sub_left Alike.sub_right
    (alike_dropZeroSign y)).dropZeroSign_eq.symm

theorem dropZeroSign_mul :
    dropZeroSign (dropZeroSign x * dropZeroSign y) = dropZeroSign (x * y) :=
  ((alike_dropZeroSign x).map₂ Alike.mul_left Alike.mul_right
    (alike_dropZeroSign y)).dropZeroSign_eq.symm

/-- Division needs its second argument not to be zero, so this keeps its own. -/
theorem dropZeroSign_div : dropZeroSign (dropZeroSign x / y) = dropZeroSign (x / y) := by
  have alike : Alike (x.toModel.unpack.div .binary64 y.toModel.unpack)
      ((dropZeroSign x).toModel.unpack.div .binary64 y.toModel.unpack) := by
    generalize x.toModel.unpack = u, (dropZeroSign x).toModel.unpack = u', alike_dropZeroSign x = hu
    cases hu with
    | same => exact .same _
    | zeros s t => exact Alike.div_left s t _
  exact alike.dropZeroSign_eq.symm

/-! ## 3. Powers -/

theorem infinitePower_zero_left : infinitePower (-0) y = infinitePower 0 y := by
  have number : (-0 : Float).isNaN = false ∧ (0 : Float).isNaN = false := ⟨rfl, rfl⟩
  have finite : (-0 : Float).isInf = false ∧ (0 : Float).isInf = false := ⟨rfl, rfl⟩
  have size : (-0 : Float).abs = (0 : Float).abs := rfl
  have one : ((-0 : Float) == 1) = ((0 : Float) == 1) := rfl
  simp only [infinitePower, number, finite, size, one, Bool.false_eq_true, if_false]

theorem infinitePower_zero_right : infinitePower x (-0) = infinitePower x 0 := by
  have number : (-0 : Float).isNaN = false ∧ (0 : Float).isNaN = false := ⟨rfl, rfl⟩
  have zero : ((-0 : Float) == 0) = ((0 : Float) == 0) := rfl
  have above : decide ((-0 : Float) > 0) = false ∧ decide ((0 : Float) > 0) = false := ⟨rfl, rfl⟩
  have below : decide ((-0 : Float) < 0) = false ∧ decide ((0 : Float) < 0) = false := ⟨rfl, rfl⟩
  have zero' : ((0 : Float) == 0) = true := rfl
  simp only [decide_eq_false_iff_not] at above below
  simp only [infinitePower, number, zero, zero', above, below, decide_false, Bool.false_and,
    Bool.false_eq_true, if_false, if_true]

theorem finitePower_zero_left :
    (finitePower (-0) y).map dropZeroSign = (finitePower 0 y).map dropZeroSign := by
  have zero : ((-0 : Float) == 0) = true ∧ ((0 : Float) == 0) = true := ⟨rfl, rfl⟩
  simp only [finitePower, zero, if_true]
  split
  · rfl
  split
  · rfl
  · split
    · exact congrArg Except.ok rfl
    · rfl

theorem finitePower_zero_right : finitePower x (-0) = finitePower x 0 := by
  have zero : ((-0 : Float) == 0) = true ∧ ((0 : Float) == 0) = true := ⟨rfl, rfl⟩
  simp only [finitePower, zero, if_true]

/-- A power does not see the sign of a zero but in that of its own. -/
theorem power_dropZeroSign :
    (power (dropZeroSign x) (dropZeroSign y)).map dropZeroSign =
      (power x y).map dropZeroSign := by
  have finite : (-0 : Float).isFinite = (0 : Float).isFinite := rfl
  have left (y : Float) : (power (-0) y).map dropZeroSign = (power 0 y).map dropZeroSign := by
    simp only [power, finite]
    split
    · exact finitePower_zero_left y
    · rw [infinitePower_zero_left]
  have right : power x (-0) = power x 0 := by
    simp only [power, finite, finitePower_zero_right, infinitePower_zero_right]
  rw [@apply_dropZeroSign _ (fun x => (power x (dropZeroSign y)).map dropZeroSign) (left _) x,
    apply_dropZeroSign right y]

end Operations

end Haulage
