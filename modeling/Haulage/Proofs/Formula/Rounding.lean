/-
# What rounding to integers gives

Without places, `round` adds a half to the size of a number and drops what stands behind the point.
Neither the factor of one nor the integer part is rounded, so the sum decides: it should be the exact
sum, or at least have the same integer part.  It has, but for two kinds of sizes (`IsMissed`).  Just
below one half, the sum is halfway between the last float below one and one, and goes to one.  From
`2^52` on the floats are the integers, and the sum is halfway between two of them: it goes to the even
one, so an odd size is left for the next integer.  From `2^53` on a half is too little to matter.

So `round` gives the integer nearest to a number, a half going away from zero, exactly if its size is
not one of these, and the next integer away from zero if it is (`round_nearest_iff`).
-/
import Haulage.Formula.Function
import Haulage.Proofs.Number.Monotone
import Haulage.Proofs.Number.Written
import Haulage.Proofs.Number.ZeroSign

namespace Haulage

open Float.Model (UnpackedFloat Format)
open Float.Model.UnpackedFloat (ExtendedMantissa Accuracy)

/-! ## 1. Integer parts -/

/-- The integer part of `m · 2^e`. -/
theorem scaledFloor_eq (n e : ℤ) : scaledFloor n e = ⌊(n * 2 ^ e : ℚ)⌋ := by
  unfold scaledFloor
  split
  · rename_i nonneg
    obtain ⟨k, rfl⟩ := Int.eq_ofNat_of_zero_le nonneg
    have whole : (n * 2 ^ (k : ℤ) : ℚ) = (n * 2 ^ k : ℤ) := by push_cast; rw [zpow_natCast]
    rw [whole, Int.floor_intCast, Int.toNat_natCast, Nat.pow_eq]
    push_cast
    rfl
  · rename_i negative
    obtain ⟨k, rfl⟩ : ∃ k : ℕ, e = -k := ⟨(-e).toNat, by omega⟩
    have quotient : (n * 2 ^ (-k : ℤ) : ℚ) = n / (2 ^ k : ℕ) := by
      rw [zpow_neg, zpow_natCast]
      push_cast
      rw [div_eq_mul_inv]
    rw [quotient, Rat.floor_intCast_div_natCast, neg_neg, Int.toNat_natCast, Nat.pow_eq]

theorem floor?_eq {x : Float} (finite : x.isFinite = true) :
    Exact.floor? x = some ⌊exactValue x⌋ := by
  rcases unpack_of_isFinite finite with ⟨s, zero⟩ | ⟨s, m, e, pos, parts⟩
  · rw [Exact.floor?, zero, exactValue_of_zero zero, Int.floor_zero]
  · rw [Exact.floor?, parts, exactValue_of_finite parts]
    exact congrArg some (scaledFloor_eq _ _)

/-- The integer part of a float is not rounded. -/
theorem nearestSize_floor {x : Float} (finite : x.isFinite = true) (nonneg : 0 ≤ exactValue x) :
    nearestSize ⌊exactValue x⌋ = ⌊exactValue x⌋ := by
  rcases unpack_of_isFinite finite with ⟨s, zero⟩ | ⟨s, m, e, pos, parts⟩
  · rw [exactValue_of_zero zero, Int.floor_zero, Int.cast_zero, nearestSize_zero]
  have canonical := canonical_of_unpack parts
  have value : exactValue x = m * 2 ^ e := by
    have positive := size_pos pos e
    rw [exactValue_of_finite parts] at nonneg ⊢
    cases s with
    | positive => rfl
    | negative => simp [UnpackedFloat.Sign.apply] at nonneg; linarith
  rcases le_or_gt 0 e with whole | part
  · obtain ⟨k, rfl⟩ := Int.eq_ofNat_of_zero_le whole
    have integer : exactValue x = ((m * 2 ^ k : ℤ) : ℚ) := by
      rw [value]
      push_cast
      rw [zpow_natCast]
    rw [integer, Int.floor_intCast, ← integer, value]
    exact nearestSize_canonical canonical
  · obtain ⟨n, floor⟩ := Int.eq_ofNat_of_zero_le (Int.floor_nonneg.mpr nonneg)
    have short : n < 2 ^ 53 := by
      have below : ((n : ℤ) : ℚ) ≤ exactValue x := floor ▸ Int.floor_le _
      have scaled : (m * 2 ^ e : ℚ) ≤ m * 1 :=
        mul_le_mul_of_nonneg_left (zpow_le_one_of_nonpos₀ one_le_two part.le) (Nat.cast_nonneg m)
      have small : (n : ℚ) < (2 ^ 53 : ℕ) := by
        have : (m : ℚ) < (2 ^ 53 : ℕ) := by exact_mod_cast canonical.short
        have : (n : ℚ) ≤ exactValue x := by exact_mod_cast below
        linarith
      exact_mod_cast small
    rw [floor]
    exact_mod_cast nearestSize_natCast short

/-- The integer part of a float is a float again, and the same number. -/
theorem toFloat_floor {x : Float} (finite : x.isFinite = true) (nonneg : 0 ≤ exactValue x) :
    ∃ y, (Number.int ⌊exactValue x⌋).toFloat = .ok y ∧ y.isFinite = true ∧
      exactValue y = ⌊exactValue x⌋ := by
  have part : Exact.trunc? x = some ⌊exactValue x⌋ := by
    have above : ¬ x < 0 := by
      rw [lt_zero_iff_exactValue finite]
      exact not_lt.mpr nonneg
    rw [Exact.trunc?, if_neg above, floor?_eq finite]
  have fixed := nearestSize_floor finite nonneg
  have bounded := isFinite_ofInt_of_trunc? part
  obtain ⟨n, floor⟩ := Int.eq_ofNat_of_zero_le (Int.floor_nonneg.mpr nonneg)
  rw [floor] at bounded fixed ⊢
  refine ⟨Float.ofInt n, ?_, bounded, ?_⟩
  · rw [Number.toFloat, Number.toFloat?, Exact.ofInt?]
    rw [if_pos bounded]
  · change exactValue (Float.ofNat n) = n
    rcases Nat.eq_zero_or_pos n with rfl | pos
    · exact exactValue_of_zero (s := .positive) rfl
    · have limit : (n : ℚ) < floatLimit := by exact_mod_cast isFinite_ofNat_iff.mp bounded
      rw [ofNat_eq_nearest pos, exactValue_nearest (Nat.cast_pos.mpr pos) limit]
      exact_mod_cast fixed

/-! ## 2. One as a factor -/

theorem canonical_one : Canonical (2 ^ 52) (-52) :=
  ⟨by decide, by decide, by decide, by decide, .inl le_rfl⟩

theorem unpack_tenToThe_zero :
    (Function.tenToThe 0).toModel.unpack = .finite .positive (2 ^ 52) (-52) canonical_one.pos := rfl

theorem unpack_half :
    (0.5 : Float).toModel.unpack = .finite .positive (2 ^ 52) (-53) (by decide) := rfl

theorem value_one : ((2 ^ 52 : ℕ) * 2 ^ (-52 : ℤ) : ℚ) = 1 := by norm_num

/-- What keeps zeros, and rounds the value of any other float, keeps every finite float. -/
theorem eq_self_of_rounds (op : UnpackedFloat → UnpackedFloat) {x : Float} (finite : x.isFinite = true)
    (zeros : ∀ s, op (.zero s) = .zero s)
    (values : ∀ s m e (pos : 0 < m), op (.finite s m e pos) = rounded s (m * 2 ^ e)) :
    Float.ofModel (.pack (op x.toModel.unpack)) = x := by
  have same : op x.toModel.unpack = x.toModel.unpack := by
    rcases unpack_of_isFinite finite with ⟨s, zero⟩ | ⟨s, m, e, pos, parts⟩
    · rw [zero, zeros]
    · rw [parts, values]
      exact rounded_canonical (canonical_of_unpack parts) s
  rw [same, pack_unpack]

theorem mul_tenToThe_zero {x : Float} (finite : x.isFinite = true) : x * Function.tenToThe 0 = x := by
  refine eq_self_of_rounds (UnpackedFloat.mul Format.binary64 · (Function.tenToThe 0).toModel.unpack)
    finite (fun s => by cases s <;> rfl) fun s m e pos => ?_
  have sign : s * .positive = s := by cases s <;> rfl
  rw [unpack_tenToThe_zero, mul_finite pos (by decide) (by omega), value_one, mul_one, sign]

theorem div_tenToThe_zero {x : Float} (finite : x.isFinite = true) : x / Function.tenToThe 0 = x := by
  refine eq_self_of_rounds (UnpackedFloat.div Format.binary64 · (Function.tenToThe 0).toModel.unpack)
    finite (fun s => by cases s <;> rfl) fun s m e pos => ?_
  have sign : s / .positive = s := by cases s <;> rfl
  rw [unpack_tenToThe_zero, div_finite pos (by decide), value_one, div_one, sign]

/-! ## 3. Where adding a half is off -/

/-- Does a half take a number of this size too far? -/
def IsMissed (a : ℚ) : Prop :=
  a = 1 / 2 - 2 ^ (-54 : ℤ) ∨ 2 ^ 52 ≤ a ∧ a < 2 ^ 53 ∧ ∃ k : ℕ, a = 2 * k + 1

section Sizes

variable {m : ℕ} {e : ℤ}

/-- From `2^53` on a half is too little to matter. -/
theorem nearestSize_add_half_of_large (h : Canonical m e) (large : 0 < e) :
    nearestSize (m * 2 ^ e + 1 / 2) = m * 2 ^ e := by
  have unit : (0 : ℚ) < 2 ^ e := zpow_pos two_pos e
  have two : (2 : ℚ) ≤ 2 ^ e := by
    simpa using zpow_le_zpow_right₀ one_le_two large
  have long : (2 ^ 52 : ℚ) ≤ m := by exact_mod_cast h.full.resolve_right (by omega)
  have short : (m + 1 : ℚ) ≤ 2 ^ 53 := by exact_mod_cast h.short
  have pos : (0 : ℚ) < m * 2 ^ e + 1 / 2 := by positivity
  have exponent : exponentOf (m * 2 ^ e + 1 / 2) = e := by
    apply le_antisymm
    · have below : (m * 2 ^ e + 1 / 2 : ℚ) < 2 ^ (53 + e) := by
        rw [zpow_add₀ two_ne_zero]
        calc (m * 2 ^ e + 1 / 2 : ℚ) < (m + 1) * 2 ^ e := by linarith
          _ ≤ _ := mul_le_mul_of_nonneg_right (by exact_mod_cast short) unit.le
      have := exponentOf_le pos (by omega) below
      omega
    · have above : (2 ^ (52 + e) : ℚ) ≤ m * 2 ^ e + 1 / 2 := by
        rw [zpow_add₀ two_ne_zero]
        have := mul_le_mul_of_nonneg_right long unit.le
        norm_num at this ⊢
        linarith
      have := exponentOf_ge pos above
      omega
  have mantissa : (leftOver ((m * 2 ^ e + 1 / 2 : ℚ) / 2 ^ e)).roundedMantissa = m := by
    have behind : (m * 2 ^ e + 1 / 2 : ℚ) / 2 ^ e = m + 1 / 2 / 2 ^ e := by
      rw [add_div, mul_div_cancel_right₀ _ unit.ne']
    have small : (1 / 2 / 2 ^ e : ℚ) ≤ 1 / 4 := by
      rw [div_le_iff₀ unit]
      linarith
    have positive : (0 : ℚ) < 1 / 2 / 2 ^ e := by positivity
    rw [behind]
    obtain ⟨below, above⟩ := abs_le.mp (abs_roundedMantissa_sub_le
      (r := m + 1 / 2 / 2 ^ e) (by positivity))
    have most : ((leftOver (m + 1 / 2 / 2 ^ e)).roundedMantissa : ℚ) < (m + 1 : ℕ) := by
      push_cast
      linarith
    exact le_antisymm (Nat.lt_succ_iff.mp (by exact_mod_cast most))
      (le_roundedMantissa (by linarith))
  rw [nearestSize, exponent, mantissa]

/-- From `2^52` on a half goes to the even mantissa. -/
theorem nearestSize_add_half_of_unit (h : Canonical m 0) :
    nearestSize (m + 1 / 2) = if m % 2 = 0 then (m : ℚ) else m + 1 := by
  have long : (2 ^ 52 : ℚ) ≤ m := by exact_mod_cast h.full.resolve_right (by omega)
  have short : (m + 1 : ℚ) ≤ 2 ^ 53 := by exact_mod_cast h.short
  have pos : (0 : ℚ) < m + 1 / 2 := by positivity
  have exponent : exponentOf (m + 1 / 2) = 0 := by
    apply le_antisymm
    · have := exponentOf_le pos (k := 53) (by decide) (by norm_num; linarith)
      omega
    · have := exponentOf_ge pos (k := 52) (by norm_num; linarith)
      omega
  rw [nearestSize, exponent, zpow_zero, mul_one, div_one]
  split
  · rename_i even
    rw [roundedMantissa_of_even even (by linarith) le_rfl]
  · rename_i odd
    rw [roundedMantissa_of_odd (by omega) le_rfl (by linarith)]
    push_cast
    rfl

/-- Just below one half the sum goes to one. -/
theorem nearestSize_add_half_of_below :
    nearestSize (1 / 2 - 2 ^ (-54 : ℤ) + 1 / 2) = 1 := by
  have exponent : exponentOf (1 / 2 - 2 ^ (-54 : ℤ) + 1 / 2) = -53 := by
    apply le_antisymm
    · have := exponentOf_le (q := 1 / 2 - 2 ^ (-54 : ℤ) + 1 / 2) (by norm_num) (k := 0) (by decide)
        (by norm_num)
      omega
    · have := exponentOf_ge (q := 1 / 2 - 2 ^ (-54 : ℤ) + 1 / 2) (by norm_num) (k := -1)
        (by norm_num)
      omega
  have mantissa : (leftOver ((1 / 2 - 2 ^ (-54 : ℤ) + 1 / 2 : ℚ) / 2 ^ (-53 : ℤ))).roundedMantissa =
      2 ^ 53 - 1 + 1 :=
    roundedMantissa_of_odd (by decide) (by norm_num) (by norm_num)
  rw [nearestSize, exponent, mantissa]
  norm_num

/-- A sum that is a whole number of the units of the size is not rounded. -/
theorem nearestSize_add_half_of_le (small : e < 0) (le : exponentOf (m * 2 ^ e + 1 / 2) ≤ e) :
    nearestSize (m * 2 ^ e + 1 / 2) = m * 2 ^ e + 1 / 2 := by
  have half : ((2 ^ (-1 - e).toNat : ℕ) * 2 ^ e : ℚ) = 1 / 2 := by
    push_cast
    rw [← zpow_natCast, Int.toNat_of_nonneg (by omega), ← zpow_add₀ two_ne_zero, sub_add_cancel]
    norm_num
  have value : ((m + 2 ^ (-1 - e).toNat : ℕ) * 2 ^ e : ℚ) = m * 2 ^ e + 1 / 2 := by
    rw [← half]
    push_cast
    ring
  exact nearestSize_eq_self value le

/-- No size lies strictly between `1/2 - 2^-54` and one half. -/
theorem eq_of_next_below_half (h : Canonical m e) (lower : 1 / 2 - 2 ^ (-54 : ℤ) ≤ (m * 2 ^ e : ℚ))
    (upper : (m * 2 ^ e : ℚ) < 1 / 2) : (m * 2 ^ e : ℚ) = 1 / 2 - 2 ^ (-54 : ℤ) := by
  obtain rfl : e = -54 := by
    have pos := size_pos h.pos e
    have most := exponentOf_le pos (k := -1) (by decide) (by norm_num; linarith)
    have least := exponentOf_ge pos (k := -2) (by norm_num at lower ⊢; linarith)
    rw [exponentOf_canonical h] at most least
    omega
  have size : (m * 2 ^ (-54 : ℤ) : ℚ) = m / 2 ^ 54 := by rw [zpow_neg, div_eq_mul_inv]; rfl
  rw [size] at lower ⊢
  have greatest : ((2 ^ 53 - 1 : ℕ) : ℚ) ≤ m := by
    have scaled : (1 / 2 - 1 / 2 ^ 54 : ℚ) ≤ m / 2 ^ 54 := by norm_num at lower ⊢; linarith
    rw [le_div_iff₀ (by positivity)] at scaled
    push_cast
    norm_num at scaled ⊢
    exact scaled
  have mantissa : m = 2 ^ 53 - 1 := by
    have : 2 ^ 53 - 1 ≤ m := by exact_mod_cast greatest
    have := h.short
    omega
  rw [mantissa]
  norm_num

/-- A half that makes the unit coarser carries the size over a power of two.  Where that is one or
more, it is a whole number. -/
theorem size_lt_floor (h : Canonical m e) (coarser : e < exponentOf (m * 2 ^ e + 1 / 2))
    (whole : -52 ≤ exponentOf (m * 2 ^ e + 1 / 2)) :
    (m * 2 ^ e : ℚ) < ⌊(m * 2 ^ e + 1 / 2 : ℚ)⌋ := by
  have positive := size_pos h.pos e
  set y : ℚ := m * 2 ^ e + 1 / 2
  have pos : 0 < y := by positivity
  obtain ⟨k, power⟩ : ∃ k : ℕ, 52 + exponentOf y = k := ⟨(52 + exponentOf y).toNat, by omega⟩
  have crossed : (m * 2 ^ e : ℚ) < 2 ^ k := by
    have short : (m * 2 ^ e : ℚ) < 2 ^ (53 + e) := by
      rw [zpow_add₀ two_ne_zero]
      exact mul_lt_mul_of_pos_right (by exact_mod_cast h.short) (zpow_pos two_pos e)
    rw [← zpow_natCast, ← power]
    exact short.trans_le (zpow_le_zpow_right₀ one_le_two (by omega))
  have reached : (2 ^ k : ℚ) ≤ y := by
    have full := (div_zpow_exponentOf pos).2.resolve_right (by omega)
    rw [le_div_iff₀ (zpow_pos two_pos _)] at full
    rw [← zpow_natCast, ← power, zpow_add₀ two_ne_zero]
    exact_mod_cast full
  have floor : (2 ^ k : ℤ) ≤ ⌊y⌋ := Int.le_floor.mpr (by exact_mod_cast reached)
  exact crossed.trans_le (by exact_mod_cast floor)

/-- **Below `2^52` the sum reaches the next integer** only just below one half. -/
theorem eq_of_nearestSize_add_half (h : Canonical m e) (small : e < 0)
    (next : nearestSize (m * 2 ^ e + 1 / 2) = ⌊(m * 2 ^ e + 1 / 2 : ℚ)⌋ + 1) :
    (m * 2 ^ e : ℚ) = 1 / 2 - 2 ^ (-54 : ℤ) := by
  have positive := size_pos h.pos e
  have coarser : e < exponentOf (m * 2 ^ e + 1 / 2) := by
    by_contra le
    rw [nearestSize_add_half_of_le small (not_lt.mp le)] at next
    exact (Int.lt_floor_add_one (m * 2 ^ e + 1 / 2 : ℚ)).ne next
  have crossed := size_lt_floor h coarser
  set y : ℚ := m * 2 ^ e + 1 / 2 with hy
  have pos : 0 < y := by linarith
  have near : (⌊y⌋ + 1 - y : ℚ) ≤ 2 ^ (exponentOf y - 1) := by
    have := (abs_le.mp (abs_nearestSize_sub_le pos.le)).2
    rwa [next] at this
  have least : -53 ≤ exponentOf y := by
    have := exponentOf_ge pos (k := -1) (by norm_num; linarith)
    omega
  rcases least.eq_or_lt with lowest | higher
  · -- the sum is below one, so it is next to one
    have one : y < 1 := by
      have := (div_zpow_exponentOf pos).1
      rw [← lowest, div_lt_iff₀ (zpow_pos two_pos _)] at this
      norm_num at this
      exact this
    rw [← lowest, Int.floor_eq_zero_iff.mpr ⟨pos.le, one⟩] at near
    norm_num at near
    exact eq_of_next_below_half h (by norm_num; linarith) (by linarith)
  · -- a whole number lies between the size and the sum, so the next integer is more than a half away
    have most : exponentOf y ≤ 0 := by
      have size := h.lt_of_neg small
      have := exponentOf_le pos (k := 53) (by decide) (by norm_num at size ⊢; linarith)
      omega
    have half : (2 ^ (exponentOf y - 1) : ℚ) ≤ 2 ^ (-1 : ℤ) :=
      zpow_le_zpow_right₀ one_le_two (by omega)
    norm_num at half
    have := crossed (by omega)
    linarith

theorem floor_natCast_add_half (n : ℕ) : ⌊(n + 1 / 2 : ℚ)⌋ = n := by
  rw [Int.floor_eq_iff]
  push_cast
  constructor <;> linarith

/-- A size from `2^52` to below `2^53` is its own mantissa. -/
theorem exponent_eq_zero (h : Canonical m e) (lower : (2 ^ 52 : ℚ) ≤ m * 2 ^ e)
    (upper : (m * 2 ^ e : ℚ) < 2 ^ 53) : e = 0 := by
  have pos : (0 : ℚ) < m * 2 ^ e := lt_of_lt_of_le (by norm_num) lower
  have most := exponentOf_le pos (k := 53) (by decide) (by exact_mod_cast upper)
  have least := exponentOf_ge pos (k := 52) (by exact_mod_cast lower)
  rw [exponentOf_canonical h] at most least
  omega

/-- A size that is missed is taken one too far. -/
theorem floor_of_isMissed (h : Canonical m e) (missed : IsMissed (m * 2 ^ e)) :
    ⌊nearestSize (m * 2 ^ e + 1 / 2)⌋ = ⌊(m * 2 ^ e + 1 / 2 : ℚ)⌋ + 1 := by
  rcases missed with below | ⟨lower, upper, k, odd⟩
  · have none : ⌊(1 / 2 - 2 ^ (-54 : ℤ) + 1 / 2 : ℚ)⌋ = 0 := by
      rw [Int.floor_eq_zero_iff]
      norm_num
    rw [below, nearestSize_add_half_of_below, none, Int.floor_one, zero_add]
  · obtain rfl := exponent_eq_zero h lower upper
    rw [zpow_zero, mul_one] at odd ⊢
    have odd : m = 2 * k + 1 := by exact_mod_cast odd
    have next : ((m : ℚ) + 1) = ((m + 1 : ℤ) : ℚ) := by push_cast; rfl
    rw [nearestSize_add_half_of_unit h, if_neg (by omega), next, Int.floor_intCast,
      floor_natCast_add_half]

/-- Any other size is not taken past the nearest integer. -/
theorem floor_of_not_isMissed (h : Canonical m e) (hit : ¬ IsMissed (m * 2 ^ e)) :
    ⌊nearestSize (m * 2 ^ e + 1 / 2)⌋ = ⌊(m * 2 ^ e + 1 / 2 : ℚ)⌋ := by
  have positive := size_pos h.pos e
  rcases lt_trichotomy e 0 with part | rfl | large
  · obtain ⟨n, floor⟩ := Int.eq_ofNat_of_zero_le
      (Int.floor_nonneg.mpr (by linarith : (0 : ℚ) ≤ m * 2 ^ e + 1 / 2))
    have below := Int.floor_le (m * 2 ^ e + 1 / 2 : ℚ)
    have above := Int.lt_floor_add_one (m * 2 ^ e + 1 / 2 : ℚ)
    have other := mt (eq_of_nearestSize_add_half h part) (not_or.mp hit).1
    rw [floor] at below above other ⊢
    have below : (n : ℚ) ≤ m * 2 ^ e + 1 / 2 := by exact_mod_cast below
    have above : (m * 2 ^ e + 1 / 2 : ℚ) < (n + 1 : ℕ) := by exact_mod_cast above
    have short : n + 1 < 2 ^ 53 := by
      have size := h.lt_of_neg part
      have small : ((n + 1 : ℕ) : ℚ) < (2 ^ 53 : ℕ) := by
        push_cast
        linarith
      exact_mod_cast small
    -- both integers are floats, so rounding does not cross them
    have lower := nearestSize_mono (Nat.cast_nonneg n) below
    have upper := nearestSize_mono (by linarith) above.le
    rw [nearestSize_natCast (by omega)] at lower
    rw [nearestSize_natCast short] at upper
    have less : nearestSize (m * 2 ^ e + 1 / 2) < (n + 1 : ℕ) :=
      lt_of_le_of_ne upper fun same => other (by rw [same]; push_cast; rfl)
    rw [Int.floor_eq_iff]
    exact ⟨by exact_mod_cast lower, by exact_mod_cast less⟩
  · rw [zpow_zero, mul_one] at hit ⊢
    have even : m % 2 = 0 := by
      by_contra odd
      refine hit (.inr ⟨?_, by exact_mod_cast h.short, m / 2, ?_⟩)
      · exact_mod_cast h.full.resolve_right (by omega)
      · have : m = 2 * (m / 2) + 1 := by omega
        exact_mod_cast this
    rw [nearestSize_add_half_of_unit h, if_pos even, Int.floor_natCast, floor_natCast_add_half]
  · obtain ⟨k, rfl⟩ := Int.eq_ofNat_of_zero_le large.le
    have whole : (m * 2 ^ (k : ℤ) : ℚ) = (m * 2 ^ k : ℕ) := by push_cast; rw [zpow_natCast]
    rw [nearestSize_add_half_of_large h large, whole, Int.floor_natCast, floor_natCast_add_half]

end Sizes

/-! ## 4. Rounding -/

/-- A size is rounded to the integer part of the sum. -/
theorem exists_roundPlaces {size : Float} {m : ℕ} {e : ℤ} {pos : 0 < m}
    (parts : size.toModel.unpack = .finite .positive m e pos) :
    ∃ y, Function.roundPlaces size 0 = .ok y ∧ y.isFinite = true ∧
      exactValue y = ⌊nearestSize (m * 2 ^ e + 1 / 2)⌋ := by
  have canonical := canonical_of_unpack parts
  have finite := isFinite_of_unpack_finite parts
  have value : exactValue size = m * 2 ^ e := exactValue_of_finite parts
  have half : exactValue 0.5 = 1 / 2 := by
    rw [exactValue_of_finite unpack_half]
    norm_num [UnpackedFloat.Sign.apply]
  have positive : (0 : ℚ) < m * 2 ^ e + 1 / 2 := by positivity
  have limit : (m * 2 ^ e + 1 / 2 : ℚ) < floatLimit := by
    linarith [canonical.add_one_le_floatLimit]
  have sum : size * Function.tenToThe 0 + 0.5 = nearest (m * 2 ^ e + 1 / 2) := by
    rw [mul_tenToThe_zero finite, add_eq_nearest finite (isFinite_of_unpack_finite unpack_half),
      value, half]
    rw [value, half]
    exact positive
  have finiteSum := isFinite_nearest_of_lt positive limit
  have valueSum := exactValue_nearest positive limit
  obtain ⟨y, whole, finiteY, valueY⟩ :=
    toFloat_floor finiteSum (valueSum ▸ nearestSize_nonneg _)
  have floor : floorInteger (size * Function.tenToThe 0 + 0.5) =
      .ok ⌊exactValue (nearest (m * 2 ^ e + 1 / 2))⌋ := by
    rw [floorInteger, sum, floor?_eq finiteSum]
  refine ⟨y, ?_, finiteY, valueSum ▸ valueY⟩
  unfold Function.roundPlaces
  dsimp only
  rw [floor]
  change ((Number.int _).toFloat >>= fun whole => .ok (whole / Function.tenToThe 0)) = _
  rw [whole]
  exact congrArg Except.ok (div_tenToThe_zero finiteY)

/-- A positive float takes the sign of another one. -/
theorem exactValue_withSignOf {x y : Float} {s : UnpackedFloat.Sign} {m n : ℕ} {e k : ℤ}
    {hm : 0 < m} {hn : 0 < n} (partsX : x.toModel.unpack = .finite s m e hm)
    (partsY : y.toModel.unpack = .finite .positive n k hn) :
    (Exact.withSignOf y x).isFinite = y.isFinite ∧
      exactValue (Exact.withSignOf y x) = s.apply 1 * exactValue y := by
  have signX := isNegative_iff partsX
  have signY : Exact.isNegative y = false :=
    Bool.eq_false_iff.mpr fun negative => by cases (isNegative_iff partsY).mp negative
  unfold Exact.withSignOf
  rw [signY]
  cases s with
  | positive =>
    have signX : Exact.isNegative x = false :=
      Bool.eq_false_iff.mpr fun negative => by cases signX.mp negative
    simp [signX, UnpackedFloat.Sign.apply]
  | negative => simp [signX.mpr rfl, UnpackedFloat.Sign.apply]

/-- A number is rounded to the integer part of the sum, with its own sign. -/
theorem exists_round {x : Float} {s : UnpackedFloat.Sign} {m : ℕ} {e : ℤ} {pos : 0 < m}
    (parts : x.toModel.unpack = .finite s m e pos) :
    ∃ r, Function.round.apply [.float x] = .ok (.float r) ∧ r.isFinite = true ∧
      exactValue r = (s.apply 1 * ⌊nearestSize (m * 2 ^ e + 1 / 2)⌋ : ℤ) := by
  obtain ⟨y, rounded, finite, value⟩ := exists_roundPlaces (unpack_abs parts)
  have given : Function.round.apply [.float x] =
      if y == 0 then .ok (.float 0) else .ok (.float (Exact.withSignOf y x)) := by
    change (liftValue (Function.roundPlaces x.abs 0) >>= fun y =>
      if y == 0 then .ok (Value.float 0) else .ok (Value.float (Exact.withSignOf y x))) = _
    rw [rounded]
    rfl
  rw [given]
  split
  · rename_i none
    refine ⟨0, rfl, rfl, ?_⟩
    have none : exactValue y = 0 := exactValue_zero ▸ (beq_iff finite rfl).mp none
    have floor : ⌊nearestSize (m * 2 ^ e + 1 / 2)⌋ = 0 := by exact_mod_cast value.symm.trans none
    rw [exactValue_zero, floor, mul_zero, Int.cast_zero]
  · rename_i some
    rcases unpack_of_isFinite finite with ⟨t, parts'⟩ | ⟨t, n, k, hn, parts'⟩
    · exact absurd ((beq_iff finite rfl).mpr (by rw [exactValue_zero, exactValue_of_zero parts'])) some
    have positive : t = .positive := by
      cases t with
      | positive => rfl
      | negative =>
        have nonneg : 0 ≤ exactValue y := by
          rw [value]
          exact_mod_cast Int.floor_nonneg.mpr (nearestSize_nonneg _)
        have size := size_pos hn k
        rw [exactValue_of_finite parts'] at nonneg
        simp [UnpackedFloat.Sign.apply] at nonneg
        linarith
    subst positive
    obtain ⟨same, signed⟩ := exactValue_withSignOf parts parts'
    refine ⟨_, rfl, same.trans finite, ?_⟩
    rw [signed, value]
    push_cast
    rfl

/-- **What `round` gives** for a finite number is never a fault.  It is the nearest integer, a half
going away from zero, exactly if a half is not too much for the size of the number; if it is, the
integer is the next one away from zero. -/
theorem round_nearest_iff {x : Float} (finite : x.isFinite = true) :
    ∃ r n, Function.round.apply [.float x] = .ok (.float r) ∧ r.isFinite = true ∧
      exactValue r = (n : ℤ) ∧ (RoundsAway (exactValue x) n ↔ ¬ IsMissed |exactValue x|) ∧
      (IsMissed |exactValue x| → n = roundAway (exactValue x) + SignType.sign (exactValue x)) := by
  rcases unpack_of_isFinite finite with ⟨s, parts⟩ | ⟨s, m, e, pos, parts⟩
  · have none : exactValue x = 0 := exactValue_of_zero parts
    have hit : ¬ IsMissed |exactValue x| := by
      rw [none, abs_zero]
      rintro (below | ⟨large, -⟩)
      · norm_num at below
      · norm_num at large
    have given : Function.round.apply [.float x] = .ok (.float 0) := by
      rcases eq_zero_or_of_unpack parts with rfl | rfl <;> rfl
    refine ⟨0, 0, given, rfl, exactValue_zero, ?_, fun missed => absurd missed hit⟩
    exact iff_of_true (by rw [none]; exact ⟨by norm_num, by norm_num⟩) hit
  obtain ⟨r, given, finiteR, value⟩ := exists_round parts
  have canonical := canonical_of_unpack parts
  have positive := size_pos pos e
  have signed : exactValue x = (s.apply 1 : ℤ) * (m * 2 ^ e) := by
    rw [exactValue_of_finite parts]
    cases s <;> simp [UnpackedFloat.Sign.apply]
  have size := abs_exactValue_of_finite parts
  have sign : ((SignType.sign (exactValue x) : SignType) : ℤ) = s.apply 1 := by
    rw [signed]
    cases s <;> simp [UnpackedFloat.Sign.apply, positive]
  have right : roundAway (exactValue x) = s.apply 1 * ⌊(m * 2 ^ e + 1 / 2 : ℚ)⌋ := by
    rw [← roundAway_of_nonneg positive.le, signed]
    cases s <;> simp [UnpackedFloat.Sign.apply, roundAway_neg]
  refine ⟨r, _, given, finiteR, value, ?_⟩
  rw [roundsAway_iff, size, sign, right]
  by_cases missed : IsMissed (m * 2 ^ e)
  · rw [floor_of_isMissed canonical missed]
    refine ⟨iff_of_false (fun same => ?_) (not_not_intro missed), fun _ => by ring⟩
    cases s <;> simp [UnpackedFloat.Sign.apply] at same
  · rw [floor_of_not_isMissed canonical missed]
    exact ⟨iff_of_true rfl missed, fun hit => absurd hit missed⟩

theorem unpack_below_half : (0.49999999999999994 : Float).toModel.unpack =
    .finite .positive (2 ^ 53 - 1) (-54) (by decide) := rfl

/-- The last number below one half is rounded to one, and its nearest integer is zero. -/
theorem round_nearest_of_below_half :
    (0.49999999999999994 : Float).isFinite = true ∧
      Function.round.apply [.float 0.49999999999999994] = .ok (.float 1) ∧
      ¬ RoundsAway (exactValue 0.49999999999999994) 1 ∧
      RoundsAway (exactValue 0.49999999999999994) 0 := by
  have finite := isFinite_of_unpack_finite unpack_below_half
  have value : exactValue 0.49999999999999994 = 1 / 2 - 2 ^ (-54 : ℤ) := by
    rw [exactValue_of_finite unpack_below_half]
    norm_num [UnpackedFloat.Sign.apply]
  have size : |exactValue 0.49999999999999994| = exactValue 0.49999999999999994 :=
    abs_of_pos (by rw [value]; norm_num)
  have missed : IsMissed |exactValue 0.49999999999999994| := .inl (size.trans value)
  have given : Function.round.apply [.float 0.49999999999999994] = .ok (.float 1) := rfl
  obtain ⟨r, n, rounded, -, whole, nearest, -⟩ := round_nearest_iff finite
  obtain rfl : 1 = r := Value.float.inj (Except.ok.inj (given.symm.trans rounded))
  have parts : (1 : Float).toModel.unpack = .finite .positive (2 ^ 52) (-52) canonical_one.pos := rfl
  have one : exactValue 1 = 1 := by
    rw [exactValue_of_finite parts]
    norm_num [UnpackedFloat.Sign.apply]
  obtain rfl : n = 1 := by exact_mod_cast whole.symm.trans one
  refine ⟨finite, given, fun rounds => nearest.mp rounds missed, ?_⟩
  rw [value]
  constructor <;> norm_num [abs_lt]

end Haulage
