/-
# Where the floats end

An integer is turned into the float nearest to it, and there is none for the very large ones.  The
greatest float is `2^1024 - 2^971`, and what is nearer to it than to `2^1024` is rounded to it; from
halfway between the two on, `floatLimit`, the mantissa is rounded up to one digit more than there is
room for, and the exponent after the carry is too large to be packed.  So an integer is beyond the
floats if and only if its size is `floatLimit` or more (`ofInt?_eq_none_iff`).
-/
import Haulage.Proofs.Number.Rounding

namespace Haulage

open Float.Model (UnpackedFloat Format)
open Float.Model.UnpackedFloat (ExtendedMantissa Accuracy shiftToTargetExponent)

/-! ## 1. The limit -/

/-- Half a unit of the greatest floats, as a power of two. -/
def halfUnit : ℕ := 970

/-- Halfway between the greatest float and the power of two above it: `2^1024 - 2^970`. -/
def floatLimit : ℕ := (2 ^ 54 - 1) * 2 ^ halfUnit

theorem floatLimit_pos : 0 < floatLimit := Nat.mul_pos (by decide) (Nat.two_pow_pos _)

theorem zpow_eq_mul_halfUnit {e : ℤ} (k : ℕ) (sum : e = k + 970) :
    (2 ^ e : ℚ) = 2 ^ k * 2 ^ (970 : ℤ) := by
  rw [sum, zpow_add₀ two_ne_zero, zpow_natCast]

/-- The last powers of two and the limit, in halves of the last unit. -/
theorem exists_halfUnit : ∃ u : ℚ, 0 < u ∧ (2 ^ (971 : ℤ) : ℚ) = 2 * u ∧
    (2 ^ (972 : ℤ) : ℚ) = 4 * u ∧ (2 ^ (1023 : ℤ) : ℚ) = 2 ^ 53 * u ∧
    (2 ^ (1024 : ℤ) : ℚ) = 2 ^ 54 * u ∧ (floatLimit : ℚ) = (2 ^ 54 - 1) * u := by
  refine ⟨2 ^ (970 : ℤ), zpow_pos two_pos _, ?_, ?_, zpow_eq_mul_halfUnit 53 (by decide),
    zpow_eq_mul_halfUnit 54 (by decide), ?_⟩
  · rw [zpow_eq_mul_halfUnit 1 (by decide), pow_one]
  · have four : (2 ^ 2 : ℚ) = 4 := by norm_num
    rw [zpow_eq_mul_halfUnit 2 (by decide), four]
  · have natural (k : ℕ) : (((2 ^ 54 - 1) * 2 ^ k : ℕ) : ℚ) = (2 ^ 54 - 1) * 2 ^ (k : ℤ) := by
      push_cast
      norm_num
    exact natural halfUnit

/-! ## 2. The last mantissa -/

/-- An odd mantissa with half a unit or more behind it is rounded up. -/
theorem roundedMantissa_of_odd {n : ℕ} (odd : n % 2 = 1) {r : ℚ} (half : n + 1 / 2 ≤ r)
    (less : r < n + 1) : (leftOver r).roundedMantissa = n + 1 := by
  have nonneg : (0 : ℚ) ≤ r := by
    have : (0 : ℚ) ≤ n := Nat.cast_nonneg n
    linarith
  have whole : ⌊r⌋₊ = n := by
    rw [Nat.floor_eq_iff nonneg]
    constructor <;> linarith
  have double : ⌊2 * r⌋₊ = 2 * n + 1 := by
    rw [Nat.floor_eq_iff (by linarith)]
    push_cast
    constructor <;> linarith
  have bit : (2 * n + 1) % 2 = 1 := by omega
  by_cases exact' : ((2 * n + 1 : ℕ) : ℚ) = 2 * r
  · simp only [leftOver, whole, double, bit, exact', ExtendedMantissa.roundedMantissa,
      ExtendedMantissa.accuracy, Accuracy.roundToNearestEven, BEq.rfl, ne_eq, not_true_eq_false,
      decide_false, odd]
  · simp only [leftOver, whole, double, bit, exact', ExtendedMantissa.roundedMantissa,
      ExtendedMantissa.accuracy, Accuracy.roundToNearestEven, BEq.rfl, ne_eq, not_false_eq_true,
      decide_true]

/-- A mantissa is not rounded below a whole number that it is above. -/
theorem le_roundedMantissa {n : ℕ} {r : ℚ} (le : n ≤ r) : n ≤ (leftOver r).roundedMantissa := by
  have nonneg : 0 ≤ r := (Nat.cast_nonneg n).trans le
  obtain ⟨below, -⟩ := abs_le.mp (abs_roundedMantissa_sub_le nonneg)
  have less : (n : ℚ) < ((leftOver r).roundedMantissa + 1 : ℕ) := by
    push_cast
    linarith
  have less : n < (leftOver r).roundedMantissa + 1 := by exact_mod_cast less
  omega

/-- An even mantissa with half a unit or less behind it is rounded down. -/
theorem roundedMantissa_of_even {n : ℕ} (even : n % 2 = 0) {r : ℚ} (le : n ≤ r)
    (half : r ≤ n + 1 / 2) : (leftOver r).roundedMantissa = n := by
  have nonneg : (0 : ℚ) ≤ r := (Nat.cast_nonneg n).trans le
  have whole : ⌊r⌋₊ = n := by
    rw [Nat.floor_eq_iff nonneg]
    constructor <;> linarith
  rcases half.eq_or_lt with rfl | less
  · have double : ⌊2 * (n + 1 / 2 : ℚ)⌋₊ = 2 * n + 1 := by
      rw [Nat.floor_eq_iff (by linarith)]
      push_cast
      constructor <;> linarith
    have bit : (2 * n + 1) % 2 = 1 := by omega
    have exact' : ((2 * n + 1 : ℕ) : ℚ) = 2 * (n + 1 / 2) := by push_cast; ring
    simp only [leftOver, whole, double, bit, exact', ExtendedMantissa.roundedMantissa,
      ExtendedMantissa.accuracy, Accuracy.roundToNearestEven, BEq.rfl, ne_eq, not_true_eq_false,
      decide_false, even, Nat.add_zero]
  · obtain ⟨below, above⟩ := abs_le.mp (abs_roundedMantissa_sub_le nonneg)
    have most : ((leftOver r).roundedMantissa : ℚ) < (n + 1 : ℕ) := by push_cast; linarith
    exact le_antisymm (Nat.lt_succ_iff.mp (by exact_mod_cast most)) (le_roundedMantissa le)

theorem exponentOf_ge {q : ℚ} (pos : 0 < q) {k : ℤ} (large : 2 ^ k ≤ q) :
    k - 52 ≤ exponentOf q := by
  have log : k ≤ Int.log 2 q := (Int.zpow_le_iff_le_log (by decide) pos).mp (by simpa using large)
  rw [exponentOf_eq]
  omega

/-- Between the last two powers of two all floats have the greatest exponent. -/
theorem exponentOf_last {q : ℚ} (large : 2 ^ (1023 : ℤ) ≤ q) (less : q < 2 ^ (1024 : ℤ)) :
    exponentOf q = 971 := by
  have pos : 0 < q := (zpow_pos two_pos _).trans_le large
  have log : Int.log 2 q < 1024 :=
    (Int.lt_zpow_iff_log_lt (by decide) pos).mp (by simpa using less)
  have upper : exponentOf q ≤ 971 := by
    rw [exponentOf_eq]
    omega
  exact le_antisymm upper (exponentOf_ge pos large)

/-! ## 3. Beyond the greatest float -/

/-- From the limit on a value is `2^1024` or more after its mantissa was rounded. -/
theorem le_roundedMantissa_mul {q : ℚ} (limit : floatLimit ≤ q) :
    2 ^ 52 ≤ (leftOver (q / 2 ^ exponentOf q)).roundedMantissa ∧
      (2 ^ (1024 : ℤ) : ℚ) ≤ (leftOver (q / 2 ^ exponentOf q)).roundedMantissa * 2 ^ exponentOf q := by
  obtain ⟨u, positive, unit, carried, last, next, value⟩ := exists_halfUnit
  rw [value] at limit
  rcases lt_or_ge q (2 ^ (1024 : ℤ)) with less | large
  · have exponent : exponentOf q = 971 := exponentOf_last (by rw [last]; linarith only [limit, positive]) less
    rw [exponent, unit, next]
    rw [next] at less
    have up : (leftOver (q / (2 * u))).roundedMantissa = 2 ^ 53 - 1 + 1 := by
      refine roundedMantissa_of_odd (by decide) ?_ ?_
      · rw [le_div_iff₀ (by positivity)]
        norm_num at limit ⊢
        linarith only [limit]
      · rw [div_lt_iff₀ (by positivity)]
        norm_num at less ⊢
        linarith only [less]
    rw [up]
    constructor
    · decide
    · norm_num
      linarith only
  · have pos : 0 < q := (zpow_pos two_pos _).trans_le large
    have exponent : 972 ≤ exponentOf q := exponentOf_ge pos large
    have full : (2 ^ 52 : ℕ) ≤ q / 2 ^ exponentOf q :=
      (div_zpow_exponentOf pos).2.elim (fun full => by exact_mod_cast full) (by omega)
    have long := le_roundedMantissa full
    refine ⟨long, ?_⟩
    have split : (2 ^ (1024 : ℤ) : ℚ) = 2 ^ 52 * 2 ^ (972 : ℤ) := by
      rw [next, carried]
      ring
    rw [split]
    exact mul_le_mul (by exact_mod_cast long) (zpow_le_zpow_right₀ one_le_two exponent)
      (zpow_pos two_pos _).le (Nat.cast_nonneg _)

/-- What has too large an exponent is packed as infinity. -/
theorem isFinite_pack_of_large {m : ℕ} {e : ℤ} (pos : 0 < m) (large : 972 ≤ e)
    (s : UnpackedFloat.Sign) :
    (Float.ofModel (.pack (.finite s m e pos))).isFinite = false := by
  have biased : 2 ^ Format.binary64.exponentBits ≤ (e + (Format.binary64.exponentBias : ℤ) +
      (Format.binary64.mantissaBitsWithoutImplicit : ℤ)).toNat + 1 := by
    have : (Format.binary64.exponentBias : ℤ) = 1023 := by decide
    have : (Format.binary64.mantissaBitsWithoutImplicit : ℤ) = 52 := rfl
    have : 2 ^ Format.binary64.exponentBits = 2048 := rfl
    omega
  have packed : Float.Model.pack (.finite s m e pos) = .pack (.infinity s) := by
    simp only [Float.Model.pack, UnpackedFloat.pack, if_pos biased]
  rw [packed]
  cases s <;> rfl

/-- The carry keeps the mantissa and makes the exponent too large. -/
theorem large_of_shiftToTargetExponent {n : ℕ} {e : ℤ} (long : 2 ^ 52 ≤ n)
    (large : (2 ^ (1024 : ℤ) : ℚ) ≤ n * 2 ^ e) :
    (shiftToTargetExponent Format.binary64 n e .exact).1.mantissa ≠ 0 ∧
      972 ≤ (shiftToTargetExponent Format.binary64 n e .exact).2 := by
  have positive : (0 : ℚ) < n := Nat.cast_pos.mpr (by omega)
  have pos : (0 : ℚ) < n * 2 ^ e := mul_pos positive (zpow_pos two_pos e)
  have exponent : 972 ≤ exponentOf (n * 2 ^ e) := exponentOf_ge pos large
  have more : e ≤ exponentOf (n * 2 ^ e) := by
    have long : (2 ^ (52 + e) : ℚ) ≤ n * 2 ^ e := by
      rw [zpow_add₀ two_ne_zero]
      exact mul_le_mul_of_nonneg_right (by exact_mod_cast long) (zpow_pos two_pos e).le
    have least := exponentOf_ge pos long
    omega
  have start : ExtendedMantissa.ofMantissaAndAccuracy n .exact = leftOver n :=
    (leftOver_natCast n).symm
  rw [shiftToTargetExponent_eq positive start more]
  refine ⟨?_, exponent⟩
  have full := (div_zpow_exponentOf pos).2.resolve_right (by omega)
  have one : (1 : ℚ) ≤ n * 2 ^ e / 2 ^ exponentOf (n * 2 ^ e) := le_trans (by norm_num) full
  exact (Nat.floor_pos.mpr one).ne'

theorem isFinite_nearest_of_le {q : ℚ} (limit : floatLimit ≤ q) : (nearest q).isFinite = false := by
  obtain ⟨long, large⟩ := le_roundedMantissa_mul limit
  obtain ⟨nonzero, exponent⟩ := large_of_shiftToTargetExponent long large
  simp only [nearest, rounded]
  rw [dif_neg nonzero]
  exact isFinite_pack_of_large _ exponent _

theorem isFinite_toFloat_of_le {n : ℕ} (limit : floatLimit ≤ n) :
    (Scientific.mk n 0).toFloat.isFinite = false := by
  have pos : 0 < n := floatLimit_pos.trans_le limit
  have value : (Scientific.mk n 0).toRat = n := by rw [Scientific.toRat, zpow_zero, mul_one]
  rw [toFloat_eq_nearest pos (Nat.zero_le _), value]
  exact isFinite_nearest_of_le (by exact_mod_cast limit)

/-! ## 4. Up to the greatest float -/

/-- Below the limit the mantissa is rounded to what there is room for. -/
theorem exponentOf_fits {q : ℚ} (pos : 0 < q) (limit : q < floatLimit) :
    exponentOf q ≤ 970 ∨
      exponentOf q = 971 ∧ (leftOver (q / 2 ^ exponentOf q)).roundedMantissa < 2 ^ 53 := by
  rcases lt_or_ge q (2 ^ (1023 : ℤ)) with small | large
  · exact .inl (exponentOf_le pos (by decide) small)
  obtain ⟨u, positive, unit, -, last, next, value⟩ := exists_halfUnit
  rw [value] at limit
  have exponent : exponentOf q = 971 := exponentOf_last large (by rw [next]; linarith only [limit, positive])
  have below : q / 2 ^ exponentOf q < 2 ^ 53 - 1 / 2 := by
    rw [exponent, unit, div_lt_iff₀ (by positivity)]
    norm_num at limit ⊢
    linarith only [limit]
  have nonneg : 0 ≤ q / 2 ^ exponentOf q := div_nonneg pos.le (zpow_pos two_pos _).le
  obtain ⟨-, above⟩ := abs_le.mp (abs_roundedMantissa_sub_le nonneg)
  refine .inr ⟨exponent, ?_⟩
  have less : ((leftOver (q / 2 ^ exponentOf q)).roundedMantissa : ℚ) < (2 ^ 53 : ℕ) := by
    push_cast
    linarith only [above, below]
  exact_mod_cast less

/-- Below the limit a size is rounded to a float of its nearest value. -/
theorem unpack_nearest {q : ℚ} (pos : 0 < q) (limit : q < floatLimit) :
    nearestSize q = 0 ∧ (nearest q).toModel.unpack = .zero .positive ∨
      ∃ m e, ∃ h : Canonical m e, (nearest q).toModel.unpack = .finite .positive m e h.pos ∧
        (m * 2 ^ e : ℚ) = nearestSize q := by
  have model : (nearest q).toModel = .pack (rounded .positive q) := rfl
  rcases exists_rounded pos (exponentOf_fits pos limit) .positive with
    ⟨none, zero⟩ | ⟨m, e, canonical, finite, value⟩
  · refine .inl ⟨none, ?_⟩
    rw [model, zero]
    rfl
  · refine .inr ⟨m, e, canonical, ?_, value⟩
    rw [model, finite, unpack_pack canonical]

theorem isFinite_nearest_of_lt {q : ℚ} (pos : 0 < q) (limit : q < floatLimit) :
    (nearest q).isFinite = true := by
  rcases unpack_nearest pos limit with ⟨-, zero⟩ | ⟨m, e, canonical, parts, -⟩
  · exact isFinite_of_unpack_zero zero
  · exact isFinite_of_unpack_finite parts

/-- The float nearest to a size has its nearest value. -/
theorem exactValue_nearest {q : ℚ} (pos : 0 < q) (limit : q < floatLimit) :
    exactValue (nearest q) = nearestSize q := by
  rcases unpack_nearest pos limit with ⟨none, zero⟩ | ⟨m, e, canonical, parts, value⟩
  · rw [exactValue_of_zero zero, none]
  · rw [exactValue_of_finite parts, ← value]
    rfl

/-- A float has room for one more below the limit. -/
theorem Canonical.add_one_le_floatLimit {m : ℕ} {e : ℤ} (h : Canonical m e) :
    (m * 2 ^ e + 1 : ℚ) ≤ floatLimit := by
  obtain ⟨u, positive, unit, -, -, -, value⟩ := exists_halfUnit
  have one : (1 : ℚ) ≤ u := by
    have large : (2 : ℚ) ^ (1 : ℤ) ≤ 2 ^ (971 : ℤ) := zpow_le_zpow_right₀ one_le_two (by decide)
    rw [unit] at large
    norm_num at large
    exact large
  have short : (m : ℚ) ≤ 2 ^ 53 - 1 := by
    have : ((m + 1 : ℕ) : ℚ) ≤ (2 ^ 53 : ℕ) := by exact_mod_cast h.short
    push_cast at this
    linarith
  have last : (2 ^ e : ℚ) ≤ 2 * u := unit ▸ zpow_le_zpow_right₀ one_le_two h.greatest
  have size : (m * 2 ^ e : ℚ) ≤ (2 ^ 53 - 1) * (2 * u) :=
    mul_le_mul short last (zpow_pos two_pos e).le (by norm_num)
  rw [value]
  linarith only [one, size]

theorem isFinite_ofNat_iff {n : ℕ} : (Float.ofNat n).isFinite = true ↔ n < floatLimit := by
  rcases Nat.eq_zero_or_pos n with rfl | pos
  · exact iff_of_true rfl floatLimit_pos
  rw [ofNat_eq_nearest pos]
  constructor
  · intro finite
    by_contra above
    have limit : (floatLimit : ℚ) ≤ n := Nat.cast_le.mpr (not_lt.mp above)
    rw [isFinite_nearest_of_le limit] at finite
    cases finite
  · intro limit
    exact isFinite_nearest_of_lt (Nat.cast_pos.mpr pos) (Nat.cast_lt.mpr limit)

/-- **An integer is beyond the floats from the limit on**, on either side of zero. -/
theorem ofInt?_eq_none_iff {n : ℤ} : Exact.ofInt? n = none ↔ floatLimit ≤ n.natAbs := by
  have size : (Float.ofInt n).isFinite = (Float.ofNat n.natAbs).isFinite := by
    cases n with
    | ofNat n => rfl
    | negSucc n => exact isFinite_neg _
  rw [← not_lt, ← isFinite_ofNat_iff, ← size, Exact.ofInt?]
  simp

end Haulage
