/-
# Rounding depends on the value alone

Products, quotients and readings of floats are computed in steps -- a mantissa with enough digits,
what is left of it, a shift, a rounding, a carry -- and the steps differ with the way that a value
comes about.  The result does not: it is `rounded` from the exact value, a rational.  What the
steps carry along is the mantissa together with two digits for all that is left of it, `leftOver`,
and shifting that is dividing the rational by a power of two (`leftOver_shiftRight`).
-/
import Haulage.Proofs.Number.Packing

namespace Haulage

open Float.Model (UnpackedFloat Format totalExponent)
open Float.Model.UnpackedFloat (ExtendedMantissa Accuracy shiftToExponent shiftToTargetExponent
  roundWithAccuracy accuracyOfFraction)

/-! ## 1. A mantissa and what is left of it -/

/-- The whole part of a rational, its first binary digit behind the point, and whether there is
more. -/
def leftOver (r : ℚ) : ExtendedMantissa :=
  ⟨⌊r⌋₊, ⌊2 * r⌋₊ % 2 == 1, decide ((⌊2 * r⌋₊ : ℚ) ≠ 2 * r)⟩

theorem leftOver_natCast (n : ℕ) : leftOver n = ⟨n, false, false⟩ := by
  have double : ⌊2 * (n : ℚ)⌋₊ = 2 * n := by
    rw [show (2 * n : ℚ) = (2 * n : ℕ) by push_cast; rfl, Nat.floor_natCast]
  simp [leftOver, double]

theorem shiftRightOne_leftOver (r : ℚ) : (leftOver r).shiftRightOne = leftOver (r / 2) := by
  have half : 2 * (r / 2) = r := by ring
  have whole : ⌊r / 2⌋₊ = ⌊r⌋₊ / 2 := by
    exact_mod_cast Nat.floor_div_natCast r 2
  simp only [leftOver, ExtendedMantissa.shiftRightOne, half, whole, ExtendedMantissa.mk.injEq,
    true_and]
  refine ⟨?_, ?_⟩
  · rcases Nat.mod_two_eq_zero_or_one ⌊r⌋₊ with h | h <;> simp [h]
  · rw [Bool.eq_iff_iff]
    simp only [Bool.or_eq_true, beq_iff_eq, decide_eq_true_eq]
    constructor
    · intro more whole
      have double : ⌊2 * r⌋₊ = 2 * ⌊r⌋₊ := by
        rw [← whole, show (2 * (⌊r⌋₊ : ℚ)) = (2 * ⌊r⌋₊ : ℕ) by push_cast; rfl, Nat.floor_natCast,
          Nat.floor_natCast]
      rcases more with odd | more
      · omega
      · apply more
        rw [double]
        push_cast
        rw [whole]
    · intro more
      by_contra none
      simp only [not_or, not_not] at none
      obtain ⟨even, double⟩ := none
      apply more
      have : ⌊2 * r⌋₊ = 2 * (⌊2 * r⌋₊ / 2) := by omega
      have value : r = (⌊2 * r⌋₊ / 2 : ℕ) := by
        rw [this] at double
        push_cast at double
        linarith
      rw [value, Nat.floor_natCast]

/-- Shifting divides by a power of two. -/
theorem leftOver_shiftRight (r : ℚ) (n : ℕ) : leftOver r >>> n = leftOver (r / 2 ^ n) := by
  have step (n : ℕ) : leftOver r >>> (n + 1) = (leftOver r >>> n).shiftRightOne := rfl
  induction n with
  | zero => simp only [pow_zero, div_one]; rfl
  | succ n ih =>
    rw [step, ih, shiftRightOne_leftOver, div_div, pow_succ]

/-- What is left of a quotient of naturals. -/
theorem ofMantissaAndAccuracy_div (m d : ℕ) (pos : 0 < d) :
    ExtendedMantissa.ofMantissaAndAccuracy (m / d) (accuracyOfFraction (m % d) d) =
      leftOver (m / d : ℚ) := by
  obtain ⟨q, ρ, less, rfl⟩ : ∃ q ρ, ρ < d ∧ m = d * q + ρ :=
    ⟨m / d, m % d, Nat.mod_lt m pos, (Nat.div_add_mod m d).symm⟩
  have whole : (d * q + ρ) / d = q := by
    rw [Nat.mul_add_div pos, Nat.div_eq_of_lt less, Nat.add_zero]
  have rest : (d * q + ρ) % d = ρ := by
    rw [Nat.mul_add_mod, Nat.mod_eq_of_lt less]
  have double : (2 * ((d * q + ρ : ℕ) / d : ℚ)) = ((d * (2 * q) + 2 * ρ : ℕ) / d : ℚ) := by
    push_cast
    ring
  have floor : ⌊2 * ((d * q + ρ : ℕ) / d : ℚ)⌋₊ = 2 * q + 2 * ρ / d := by
    rw [double, Nat.floor_div_eq_div, Nat.mul_add_div pos]
  have exact' : ((2 * q + 2 * ρ / d : ℕ) : ℚ) ≠ 2 * ((d * q + ρ : ℕ) / d : ℚ) ↔
      2 * ρ / d * d ≠ 2 * ρ := by
    rw [double, ne_eq, ne_eq, eq_div_iff (by positivity), not_iff_not]
    norm_cast
    constructor <;> intro h <;> linarith
  rw [whole, rest, leftOver, floor, Nat.floor_div_eq_div, whole]
  simp only [exact', accuracyOfFraction]
  by_cases none : ρ = 0
  · simp [none, ExtendedMantissa.ofMantissaAndAccuracy]
  · rw [if_neg none]
    rcases lt_trichotomy (2 * ρ) d with lt | eq | gt
    · have quotient : 2 * ρ / d = 0 := Nat.div_eq_of_lt lt
      rw [Nat.compare_eq_lt.mpr lt, quotient]
      simp [ExtendedMantissa.ofMantissaAndAccuracy, none]
    · have quotient : 2 * ρ / d = 1 := by rw [eq, Nat.div_self pos]
      rw [Nat.compare_eq_eq.mpr eq, quotient]
      simp [ExtendedMantissa.ofMantissaAndAccuracy, eq]
    · have quotient : 2 * ρ / d = 1 := by
        rw [Nat.div_eq_iff pos]
        omega
      rw [Nat.compare_eq_gt.mpr gt, quotient]
      simp [ExtendedMantissa.ofMantissaAndAccuracy]
      omega

/-! ## 2. Rounding -/

/-- The exponent of the float that a positive rational is rounded to, before any carry. -/
def exponentOf (q : ℚ) : ℤ := Format.binary64.targetExponent (Int.log 2 q + 1)

theorem exponentOf_eq (q : ℚ) : exponentOf q = max (Int.log 2 q - 52) (-1074) := by
  have : Format.binary64.minExponent = -1074 := by decide
  have : (Format.binary64.mantissaBits : ℤ) = 53 := by decide
  simp only [exponentOf, Format.targetExponent]
  omega

/-- A positive rational, with a sign, rounded. -/
def rounded (sign : UnpackedFloat.Sign) (q : ℚ) : UnpackedFloat :=
  let mantissa := (leftOver (q / 2 ^ exponentOf q)).roundedMantissa
  let carried := shiftToTargetExponent Format.binary64 mantissa (exponentOf q) .exact
  if h : carried.1.mantissa = 0 then .zero sign
  else .finite sign carried.1.mantissa carried.2 (Nat.pos_of_ne_zero h)

theorem log_mul_zpow {r : ℚ} (pos : 0 < r) (e : ℤ) :
    Int.log 2 (r * 2 ^ e) = Int.log 2 r + e := by
  have two : (0 : ℚ) < 2 ^ e := zpow_pos two_pos e
  have lower := Int.zpow_log_le_self (b := 2) one_lt_two pos
  have upper := Int.lt_zpow_succ_log_self (b := 2) one_lt_two r
  push_cast at lower upper
  apply le_antisymm
  · rw [← Int.lt_add_one_iff, ← Int.lt_zpow_iff_log_lt (by decide) (mul_pos pos two)]
    push_cast
    rw [show Int.log 2 r + e + 1 = Int.log 2 r + 1 + e by ring, zpow_add₀ two_ne_zero]
    exact mul_lt_mul_of_pos_right upper two
  · rw [← Int.zpow_le_iff_le_log (by decide) (mul_pos pos two)]
    push_cast
    rw [zpow_add₀ two_ne_zero]
    exact mul_le_mul_of_nonneg_right lower two.le

/-- The shift that goes before the rounding ends at the exponent of the value. -/
theorem shiftToTargetExponent_eq {m : ℕ} {e : ℤ} {accuracy : Accuracy} {r : ℚ} (pos : 0 < r)
    (start : ExtendedMantissa.ofMantissaAndAccuracy m accuracy = leftOver r)
    (le : e ≤ exponentOf (r * 2 ^ e)) :
    shiftToTargetExponent Format.binary64 m e accuracy =
      (leftOver (r * 2 ^ e / 2 ^ exponentOf (r * 2 ^ e)), exponentOf (r * 2 ^ e)) := by
  have mantissa : m = ⌊r⌋₊ := by
    rw [show ⌊r⌋₊ = (leftOver r).mantissa from rfl, ← start]
    unfold ExtendedMantissa.ofMantissaAndAccuracy
    split <;> rfl
  have target : Format.binary64.targetExponent (totalExponent m e) = exponentOf (r * 2 ^ e) := by
    rw [exponentOf_eq, log_mul_zpow pos] at le
    rw [exponentOf, log_mul_zpow pos, totalExponent]
    rcases le_or_gt 1 r with one | less
    · rw [Int.log_of_one_le_right 2 one, mantissa, Nat.log2_eq_log_two]
      congr 1
      ring
    · -- Nothing is left in front of the point, so only the least exponent goes.
      have none : m = 0 := by rw [mantissa, Nat.floor_eq_zero.mpr less]
      have negative : Int.log 2 r < 0 :=
        (Int.lt_zpow_iff_log_lt (by decide) pos).mp (by simpa using less)
      have least : Format.binary64.minExponent = -1074 := by decide
      have bits : (Format.binary64.mantissaBits : ℤ) = 53 := by decide
      rw [none, Nat.log2_zero]
      simp only [Format.targetExponent]
      omega
  have shift : (2 : ℚ) ^ (exponentOf (r * 2 ^ e) - e).toNat =
      2 ^ exponentOf (r * 2 ^ e) / 2 ^ e := by
    rw [← zpow_natCast, Int.toNat_of_nonneg (by omega), zpow_sub₀ two_ne_zero]
  rw [shiftToTargetExponent, target]
  simp only [shiftToExponent, start, leftOver_shiftRight, shift, Prod.mk.injEq]
  exact ⟨by rw [div_div_eq_mul_div], by omega⟩

/-- **Rounding depends on the value alone**, if there are digits enough. -/
theorem roundWithAccuracy_eq {m : ℕ} {e : ℤ} {accuracy : Accuracy} {r : ℚ} (pos : 0 < r)
    (start : ExtendedMantissa.ofMantissaAndAccuracy m accuracy = leftOver r)
    (le : e ≤ exponentOf (r * 2 ^ e)) (sign : UnpackedFloat.Sign) :
    roundWithAccuracy Format.binary64 sign m e accuracy = rounded sign (r * 2 ^ e) := by
  rw [roundWithAccuracy, shiftToTargetExponent_eq pos start le]
  rfl

theorem exponentOf_canonical {m : ℕ} {e : ℤ} (h : Canonical m e) : exponentOf (m * 2 ^ e) = e := by
  have pos : (0 : ℚ) < m := by exact_mod_cast h.pos
  have short : m.log2 < 53 := (Nat.log2_lt h.pos.ne').mpr h.short
  have := h.least
  rw [exponentOf_eq, log_mul_zpow pos, Int.log_natCast, ← Nat.log2_eq_log_two]
  rcases h.full with full | least
  · have := (Nat.le_log2 h.pos.ne').mpr full
    omega
  · omega

/-- **What is a float already stays as it is.** -/
theorem rounded_canonical {m : ℕ} {e : ℤ} (h : Canonical m e) (sign : UnpackedFloat.Sign) :
    rounded sign (m * 2 ^ e) = .finite sign m e h.pos := by
  have pos : (0 : ℚ) < m := by exact_mod_cast h.pos
  have exponent := exponentOf_canonical h
  have start : ExtendedMantissa.ofMantissaAndAccuracy m .exact = leftOver m :=
    (leftOver_natCast m).symm
  have whole : (m : ℚ) * 2 ^ e / 2 ^ e = m :=
    mul_div_cancel_right₀ _ (zpow_ne_zero e two_ne_zero)
  have mantissa : (leftOver m).roundedMantissa = m := by
    rw [leftOver_natCast]
    rfl
  have carried : shiftToTargetExponent Format.binary64 m e .exact = (⟨m, false, false⟩, e) := by
    rw [shiftToTargetExponent_eq pos start exponent.ge, exponent, whole, leftOver_natCast]
  unfold rounded
  simp only [exponent, whole, mantissa, carried]
  rw [dif_neg h.pos.ne']

/-! ## 3. Products and quotients -/

/-- The product of two finite floats, if their mantissas have digits enough between them. -/
theorem mul_finite {s t : UnpackedFloat.Sign} {m n : ℕ} {e k : ℤ} (hm : 0 < m) (hn : 0 < n)
    (long : 2 ^ 52 ≤ m * n) :
    UnpackedFloat.mul Format.binary64 (.finite s m e hm) (.finite t n k hn) =
      rounded (s * t) (m * 2 ^ e * (n * 2 ^ k)) := by
  have pos : (0 : ℚ) < (m * n : ℕ) := by exact_mod_cast Nat.mul_pos hm hn
  have value : (m * 2 ^ e * (n * 2 ^ k) : ℚ) = (m * n : ℕ) * 2 ^ (e + k) := by
    rw [zpow_add₀ two_ne_zero]
    push_cast
    ring
  have log : 52 ≤ (m * n).log2 := (Nat.le_log2 (Nat.mul_pos hm hn).ne').mpr long
  rw [value]
  refine roundWithAccuracy_eq pos (leftOver_natCast _).symm ?_ _
  rw [exponentOf_eq, log_mul_zpow pos, Int.log_natCast, ← Nat.log2_eq_log_two]
  omega

theorem le_log_quotient {m n : ℕ} (hm : 0 < m) (hn : 0 < n) (e k : ℤ) :
    (m.log2 + e) - (n.log2 + 1 + k) ≤ Int.log 2 (m * 2 ^ e / (n * 2 ^ k) : ℚ) := by
  have posM := size_pos hm e
  have posN := size_pos hn k
  have lower : (2 : ℚ) ^ (m.log2 + e) ≤ m * 2 ^ e := by
    rw [zpow_add₀ two_ne_zero]
    have : (2 : ℚ) ^ (m.log2 : ℤ) ≤ m := by exact_mod_cast Nat.log2_self_le hm.ne'
    exact mul_le_mul_of_nonneg_right this (zpow_pos two_pos e).le
  have upper : (n : ℚ) * 2 ^ k ≤ 2 ^ (n.log2 + 1 + k) := by
    rw [zpow_add₀ two_ne_zero]
    have : (n : ℚ) ≤ 2 ^ (n.log2 + 1 : ℤ) := by exact_mod_cast Nat.lt_log2_self.le
    exact mul_le_mul_of_nonneg_right this (zpow_pos two_pos k).le
  rw [← Int.zpow_le_iff_le_log (by decide) (div_pos posM posN)]
  push_cast
  rw [zpow_sub₀ two_ne_zero]
  exact div_le_div₀ posM.le lower posN upper

/-- The quotient of two finite floats. -/
theorem div_finite {s t : UnpackedFloat.Sign} {m n : ℕ} {e k : ℤ} (hm : 0 < m) (hn : 0 < n) :
    UnpackedFloat.div Format.binary64 (.finite s m e hm) (.finite t n k hn) =
      rounded (s / t) (m * 2 ^ e / (n * 2 ^ k)) := by
  set target := min (e - k)
    (Format.binary64.targetExponent (totalExponent m e - totalExponent n k)) with htarget
  set shift := (e - k - target).toNat with hshift
  have posM : (0 : ℚ) < m := by exact_mod_cast hm
  have posN : (0 : ℚ) < n := by exact_mod_cast hn
  have pos : (0 : ℚ) < (m <<< shift : ℕ) / n := by
    rw [Nat.shiftLeft_eq]
    push_cast
    positivity
  have value : (m * 2 ^ e / (n * 2 ^ k) : ℚ) = (m <<< shift : ℕ) / n * 2 ^ target := by
    have : (2 : ℚ) ^ shift = 2 ^ (e - k - target) := by
      rw [← zpow_natCast, hshift, Int.toNat_of_nonneg (by omega)]
    rw [Nat.shiftLeft_eq]
    push_cast
    rw [this, zpow_sub₀ two_ne_zero, zpow_sub₀ two_ne_zero]
    have : (2 : ℚ) ^ target ≠ 0 := zpow_ne_zero target two_ne_zero
    have : (2 : ℚ) ^ k ≠ 0 := zpow_ne_zero k two_ne_zero
    field_simp
  have start := ofMantissaAndAccuracy_div (m <<< shift) n hn
  have le : target ≤ exponentOf ((m <<< shift : ℕ) / n * 2 ^ target) := by
    rw [← value]
    have := le_log_quotient hm hn e k
    have : target ≤ _ := min_le_right _ _
    simp only [Format.targetExponent, totalExponent] at this
    simp only [exponentOf, Format.targetExponent]
    omega
  rw [value]
  exact roundWithAccuracy_eq pos start le _

/-! ## 4. Reading decimals -/

/-- The float nearest to a positive rational. -/
def nearest (q : ℚ) : Float := .ofModel (.pack (rounded .positive q))

/-- The value of a decimal. -/
def Scientific.toRat (d : Scientific) : ℚ := d.coefficient * 10 ^ d.exponent

theorem Scientific.toRat_nonneg (d : Scientific) : 0 ≤ d.toRat := by
  unfold toRat
  positivity

theorem Scientific.toRat_pos {d : Scientific} (pos : 0 < d.coefficient) : 0 < d.toRat :=
  mul_pos (Nat.cast_pos.mpr pos) (zpow_pos (by norm_num) _)

/-- The value of a number of cents. -/
theorem toRat_cents (c : ℕ) : (Scientific.mk c (-2)).toRat = c / 100 := by
  rw [Scientific.toRat]
  norm_num
  ring

/-- A natural of at most 53 binary digits is a float. -/
theorem unpack_toFloat {n : ℕ} (pos : 0 < n) (short : n < 2 ^ 53) :
    ∃ m e, ∃ h : 0 < m, n.toUInt64.toFloat.toModel.unpack = .finite .positive m e h ∧
      2 ^ 52 ≤ m ∧ (m * 2 ^ e : ℚ) = n := by
  have log : n.log2 < 53 := (Nat.log2_lt pos.ne').mpr short
  obtain ⟨j, hj⟩ : ∃ j, n.log2 + j = 52 := ⟨52 - n.log2, by omega⟩
  have lower : 2 ^ 52 ≤ n * 2 ^ j := by
    rw [← hj, pow_add]
    exact Nat.mul_le_mul_right _ (Nat.log2_self_le pos.ne')
  have upper : n * 2 ^ j < 2 ^ 53 := by
    rw [show 53 = n.log2 + 1 + j by omega, pow_add]
    exact Nat.mul_lt_mul_of_pos_right Nat.lt_log2_self (Nat.two_pow_pos j)
  have canonical : Canonical (n * 2 ^ j) (-j) :=
    ⟨by omega, upper, by omega, by omega, .inl lower⟩
  have target : Format.binary64.targetExponent (totalExponent n 0) = -j := by
    have least : Format.binary64.minExponent = -1074 := by decide
    have bits : (Format.binary64.mantissaBits : ℤ) = 53 := by decide
    simp only [Format.targetExponent, totalExponent]
    omega
  have whole : n.toUInt64.toNat = n := Nat.mod_eq_of_lt (by omega)
  have order : compare (n : ℤ) 0 = .gt := compare_gt_iff_gt.mpr (by exact_mod_cast pos)
  have shifted : UnpackedFloat.decreaseExponent n 0 (-j : ℤ) = (n * 2 ^ j, (-j : ℤ)) := by
    simp [UnpackedFloat.decreaseExponent, Nat.shiftLeft_eq]
  have start : ExtendedMantissa.ofMantissaAndAccuracy (n * 2 ^ j) .exact =
      leftOver (n * 2 ^ j : ℕ) := (leftOver_natCast _).symm
  have converted : UnpackedFloat.ofUInt64 Format.binary64 n.toUInt64 =
      .finite .positive (n * 2 ^ j) (-j) canonical.pos := by
    rw [UnpackedFloat.ofUInt64, whole, UnpackedFloat.ofNat, UnpackedFloat.ofInt,
      UnpackedFloat.normalize, order]
    dsimp only
    rw [UnpackedFloat.round, Int.toNat_natCast, target, shifted]
    dsimp only
    rw [roundWithAccuracy_eq (by exact_mod_cast canonical.pos) start
      (exponentOf_canonical canonical).ge, rounded_canonical canonical]
  have model : n.toUInt64.toFloat.toModel =
      .pack (.finite .positive (n * 2 ^ j) (-j) canonical.pos) := by
    rw [← converted]
    rfl
  refine ⟨n * 2 ^ j, -j, canonical.pos, by rw [model, unpack_pack canonical], lower, ?_⟩
  rw [zpow_neg, zpow_natCast]
  push_cast
  exact mul_inv_cancel_right₀ (pow_ne_zero j two_ne_zero) _

/-- Is the float the power of ten? -/
def isPowerOfTen (x : Float) (k : ℕ) : Bool :=
  match x.toModel.unpack with
  | .finite .positive m e _ => decide (2 ^ 52 ≤ m) && m * 2 ^ e.toNat == 10 ^ k * 2 ^ (-e).toNat
  | _ => false

theorem isPowerOfTen_powers : ∀ k : Fin Float.exactlyRepresentablePowersOfTen.size,
    isPowerOfTen Float.exactlyRepresentablePowersOfTen[k] k = true := by
  decide +kernel

theorem unpack_of_isPowerOfTen {x : Float} {k : ℕ} (h : isPowerOfTen x k = true) :
    ∃ m e, ∃ pos : 0 < m, x.toModel.unpack = .finite .positive m e pos ∧ 2 ^ 52 ≤ m ∧
      (m * 2 ^ e : ℚ) = 10 ^ k := by
  unfold isPowerOfTen at h
  split at h
  · rename_i m e pos parts
    simp only [Bool.and_eq_true, decide_eq_true_eq, beq_iff_eq] at h
    refine ⟨m, e, pos, parts, h.1, ?_⟩
    have same : (m * 2 ^ e.toNat : ℚ) = 10 ^ k * 2 ^ (-e).toNat := by exact_mod_cast h.2
    rcases Int.le_total 0 e with nonneg | nonpos
    · rw [Int.toNat_of_nonpos (by omega : -e ≤ 0), pow_zero, mul_one] at same
      rw [← same, ← zpow_natCast, Int.toNat_of_nonneg nonneg]
    · rw [Int.toNat_of_nonpos nonpos, pow_zero, mul_one] at same
      have negated : ((-e).toNat : ℤ) = -e := Int.toNat_of_nonneg (by omega)
      rw [same, ← zpow_natCast 2 (-e).toNat, negated, mul_assoc, ← zpow_add₀ two_ne_zero,
        neg_add_cancel, zpow_zero, mul_one]
  · cases h

/-- A product with a power of ten that is a float is rounded once. -/
theorem mul_powerOfTen {c k : ℕ} {p : Float} (pos : 0 < c) (short : c < 2 ^ 53)
    (power : isPowerOfTen p k = true) : c.toUInt64.toFloat * p = nearest (c * 10 ^ k) := by
  obtain ⟨m, e, hm, parts, long, value⟩ := unpack_toFloat pos short
  obtain ⟨n, j, hn, parts', -, value'⟩ := unpack_of_isPowerOfTen power
  have digits : 2 ^ 52 ≤ m * n := le_trans long (Nat.le_mul_of_pos_right m hn)
  have multiplied := mul_finite hm hn digits (s := .positive) (t := .positive) (e := e) (k := j)
  rw [← parts, ← parts', value, value'] at multiplied
  exact congrArg (fun u => Float.ofModel (.pack u)) multiplied

/-- So is a quotient by one. -/
theorem div_powerOfTen {c k : ℕ} {p : Float} (pos : 0 < c) (short : c < 2 ^ 53)
    (power : isPowerOfTen p k = true) : c.toUInt64.toFloat / p = nearest (c / 10 ^ k) := by
  obtain ⟨m, e, hm, parts, -, value⟩ := unpack_toFloat pos short
  obtain ⟨n, j, hn, parts', -, value'⟩ := unpack_of_isPowerOfTen power
  have divided := div_finite hm hn (s := .positive) (t := .positive) (e := e) (k := j)
  rw [← parts, ← parts', value, value'] at divided
  exact congrArg (fun u => Float.ofModel (.pack u)) divided

/-- With more digits or a greater power, the decimal is a product or a quotient of integers, which is
rounded once too. -/
theorem ofScientific_eq_rounded {c : ℕ} {k : ℤ} (pos : 0 < c) (bound : k.natAbs ≤ 2048) :
    UnpackedFloat.ofScientific Format.binary64 c k = rounded .positive (c * 10 ^ k) := by
  rw [UnpackedFloat.ofScientific, dif_neg pos.ne', if_neg (by simp; omega),
    if_neg (by simp; omega)]
  split
  · rename_i nonneg
    have digits : 2 ^ 52 ≤ c <<< 53 * 10 ^ k.toNat := by
      rw [Nat.shiftLeft_eq]
      have : 1 ≤ 10 ^ k.toNat := Nat.one_le_pow _ _ (by decide)
      nlinarith
    have multiplied := mul_finite (Nat.pos_of_ne_zero (by simpa using pos.ne'))
      (Nat.pow_pos (by decide)) digits (s := .positive) (t := .positive) (e := -53) (k := 0)
    refine multiplied.trans (congrArg (rounded .positive) ?_)
    have power : (10 : ℚ) ^ k = 10 ^ k.toNat := by
      rw [← zpow_natCast, Int.toNat_of_nonneg nonneg]
    rw [Nat.shiftLeft_eq, power]
    push_cast
    norm_num
    ring
  · rename_i negative
    have divided := div_finite pos (Nat.pow_pos (by decide) : 0 < 10 ^ (-k).toNat)
      (s := .positive) (t := .positive) (e := 0) (k := 0)
    refine divided.trans (congrArg (rounded .positive) ?_)
    have negated : ((-k).toNat : ℤ) = -k := Int.toNat_of_nonneg (by omega)
    push_cast
    rw [mul_one, mul_one, ← zpow_natCast, negated, zpow_neg, div_inv_eq_mul]

/-- An exponent is passed on as its sign and its size. -/
theorem ite_negOfNat_natAbs (k : ℤ) :
    (if decide (k < 0) = true then Int.negOfNat k.natAbs else Int.ofNat k.natAbs) = k := by
  split
  · rename_i negative
    have := of_decide_eq_true negative
    simp only [Int.negOfNat_eq, Int.ofNat_eq_natCast]
    omega
  · rename_i nonnegative
    have : ¬k < 0 := fun less => nonnegative (decide_eq_true less)
    simp only [Int.ofNat_eq_natCast]
    omega

/-- **A decimal is read as the float nearest to its value.** -/
theorem toFloat_eq_nearest {d : Scientific} (pos : 0 < d.coefficient)
    (bound : d.exponent.natAbs ≤ 2048) : d.toFloat = nearest d.toRat := by
  obtain ⟨c, k⟩ := d
  dsimp only at pos bound
  rw [Scientific.toFloat, Float.ofScientific, Scientific.toRat]
  dsimp only
  split
  · rename_i fast
    have power := isPowerOfTen_powers ⟨k.natAbs, show k.natAbs < 23 by omega⟩
    have sign : ((k.natAbs : ℤ) = -k ∧ k < 0) ∨ ((k.natAbs : ℤ) = k ∧ ¬k < 0) := by omega
    rcases sign with ⟨abs, negative⟩ | ⟨abs, nonnegative⟩
    · rw [if_pos (by simpa using negative)]
      refine (div_powerOfTen pos fast.1 power).trans (congrArg nearest ?_)
      rw [← zpow_natCast, abs, zpow_neg, div_inv_eq_mul]
    · rw [if_neg (by simpa using nonnegative)]
      refine (mul_powerOfTen pos fast.1 power).trans (congrArg nearest ?_)
      rw [← zpow_natCast, abs]
  · rw [ite_negOfNat_natAbs, nearest, Float.Model.ofScientific, ofScientific_eq_rounded pos bound]

/-- A float that is finite and not zero is the float nearest to its value. -/
theorem nearest_eq {x : Float} {m : ℕ} {e : ℤ} {pos : 0 < m}
    (h : x.toModel.unpack = .finite .positive m e pos) : nearest (m * 2 ^ e) = x := by
  rw [nearest, rounded_canonical (canonical_of_unpack h), ← h, pack_unpack]

end Haulage
