/-
# No coarser decimal reads back

A float is written with the first decimal that reads as it, from coarse grids to fine ones.  On each
grid only the two points next to the float are tried.  That is enough, for rounding keeps the order:
what lies between a decimal that reads as the float and the float itself reads as it too
(`readsAs_of_between`).  So the search stops at the first grid that has such a point at all
(`exists_coarsestPoint?`).

The consequence that amounts of money rest on is `exponent_shortest_of_cents`: a float that some whole
number of cents reads as is written with two places at most.
-/
import Haulage.Proofs.Number.Monotone
import Haulage.Proofs.Number.Written

namespace Haulage

open Float.Model (UnpackedFloat)

/-! ## 1. What reads as a float -/

theorem floatLimit_lt_nearestSize : (floatLimit : ℚ) < nearestSize floatLimit := by
  obtain ⟨u, positive, -, -, -, next, value⟩ := exists_halfUnit
  have beyond := (le_roundedMantissa_mul (le_refl (floatLimit : ℚ))).2
  rw [next] at beyond
  refine lt_of_lt_of_le ?_ beyond
  rw [value]
  linarith only [positive]

section Reading

variable {x : Float} {m : ℕ} {e : ℤ} {pos : 0 < m}

/-- **A decimal reads as a float** exactly if its value is rounded to that of the float. -/
theorem readsAs_iff {d : Scientific} (parts : x.toModel.unpack = .finite .positive m e pos)
    (coefficient : 0 < d.coefficient) (bound : d.exponent.natAbs ≤ 2048) :
    d.readsAs x = true ↔ nearestSize d.toRat = m * 2 ^ e := by
  have positive := Scientific.toRat_pos coefficient
  have value : exactValue x = m * 2 ^ e := exactValue_of_finite parts
  have finite := isFinite_of_unpack_finite parts
  rw [Scientific.readsAs, toFloat_eq_nearest coefficient bound, ← value]
  constructor
  · intro reads
    have same : nearest d.toRat = x := eq_of_beq_finite parts reads
    have limit : d.toRat < floatLimit := by
      by_contra beyond
      rw [← same, isFinite_nearest_of_le (not_lt.mp beyond)] at finite
      cases finite
    rw [← exactValue_nearest positive limit, same]
  · intro rounds
    have limit : d.toRat < floatLimit := by
      by_contra beyond
      have least := (canonical_of_unpack parts).add_one_le_floatLimit
      have above := nearestSize_mono (Nat.cast_nonneg floatLimit) (not_lt.mp beyond)
      rw [rounds, value] at above
      linarith only [least, above, floatLimit_lt_nearestSize]
    rw [beq_iff (isFinite_nearest_of_lt positive limit) finite, exactValue_nearest positive limit,
      rounds]

theorem readsAs_cents_iff {c : ℕ} (parts : x.toModel.unpack = .finite .positive m e pos)
    (cents : 0 < c) :
    (Scientific.mk c (-2)).readsAs x = true ↔ nearestSize (c / 100) = m * 2 ^ e := by
  rw [readsAs_iff parts cents (show (-2 : ℤ).natAbs ≤ 2048 by decide), toRat_cents]

/-- What lies between a decimal that reads as the float and the float itself reads as it. -/
theorem readsAs_of_between {d d' : Scientific} (parts : x.toModel.unpack = .finite .positive m e pos)
    (coefficient : 0 < d.coefficient) (bound : d.exponent.natAbs ≤ 2048)
    (coefficient' : 0 < d'.coefficient) (bound' : d'.exponent.natAbs ≤ 2048)
    (reads : d.readsAs x = true)
    (between : (d.toRat ≤ d'.toRat ∧ d'.toRat ≤ m * 2 ^ e) ∨
      (m * 2 ^ e ≤ d'.toRat ∧ d'.toRat ≤ d.toRat)) : d'.readsAs x = true := by
  have size : (0 : ℚ) ≤ m * 2 ^ e := by positivity
  have own := nearestSize_canonical (canonical_of_unpack parts)
  rw [readsAs_iff parts coefficient bound] at reads
  rw [readsAs_iff parts coefficient' bound']
  rcases between with ⟨lower, upper⟩ | ⟨lower, upper⟩
  · apply le_antisymm
    · exact (nearestSize_mono d'.toRat_nonneg upper).trans own.le
    · exact reads ▸ nearestSize_mono d.toRat_nonneg lower
  · apply le_antisymm
    · exact reads ▸ nearestSize_mono d'.toRat_nonneg upper
    · exact own.ge.trans (nearestSize_mono size lower)

/-! ## 2. The search -/

/-- Measured in units of a grid, a float has the value in these units. -/
theorem inUnits_scaledFraction (m : ℕ) (e k : ℤ) :
    0 < (inUnits (scaledFraction m e).num.toNat (scaledFraction m e).den k).2 ∧
      ((inUnits (scaledFraction m e).num.toNat (scaledFraction m e).den k).1 : ℚ) /
        (inUnits (scaledFraction m e).num.toNat (scaledFraction m e).den k).2 * 10 ^ k =
          m * 2 ^ e := by
  have den := (scaledFraction m e).den_pos
  have nonneg : 0 ≤ (scaledFraction m e).num := by
    unfold scaledFraction
    split
    · positivity
    · exact Int.natCast_nonneg m
  have num : (((scaledFraction m e).num.toNat : ℕ) : ℚ) = m * 2 ^ e * (scaledFraction m e).den := by
    have value := num_scaledFraction m e
    rw [← Int.toNat_of_nonneg nonneg] at value
    exact_mod_cast value
  generalize (scaledFraction m e).num.toNat = n at num
  generalize (scaledFraction m e).den = d at den num
  have denominator : (d : ℚ) ≠ 0 := by exact_mod_cast den.ne'
  unfold inUnits
  split
  · rename_i whole
    obtain ⟨j, rfl⟩ := Int.eq_ofNat_of_zero_le whole
    refine ⟨Nat.mul_pos den (Nat.pow_pos (by decide)), ?_⟩
    rw [Int.toNat_natCast, Nat.pow_eq, zpow_natCast]
    push_cast
    rw [num]
    field_simp
  · rename_i part
    obtain ⟨j, rfl⟩ : ∃ j : ℕ, k = -j := ⟨(-k).toNat, by omega⟩
    refine ⟨den, ?_⟩
    rw [neg_neg, Int.toNat_natCast, Nat.pow_eq, zpow_neg, zpow_natCast]
    push_cast
    rw [num]
    field_simp

/-- A grid with a point that reads as the float has one next to the float. -/
theorem exists_gridPoint? {c : ℕ} {k : ℤ} (parts : x.toModel.unpack = .finite .positive m e pos)
    (coefficient : 0 < c) (bound : k.natAbs ≤ 2048) (reads : (Scientific.mk c k).readsAs x = true) :
    ∃ d, gridPoint? x (scaledFraction m e).num.toNat (scaledFraction m e).den k = some d := by
  obtain ⟨den, value⟩ := inUnits_scaledFraction m e k
  have unit : (0 : ℚ) < 10 ^ k := zpow_pos (by norm_num) k
  simp only [gridPoint?]
  generalize (inUnits (scaledFraction m e).num.toNat (scaledFraction m e).den k).1 = n at value
  generalize (inUnits (scaledFraction m e).num.toNat (scaledFraction m e).den k).2 = d at den value
  have positive : (0 : ℚ) < d := by exact_mod_cast den
  have lower : ((n / d : ℕ) : ℚ) ≤ n / d := Nat.cast_div_le
  have upper : (n / d : ℚ) ≤ (n / d + 1 : ℕ) := by
    rw [div_le_iff₀ positive]
    exact_mod_cast (Nat.lt_div_mul_add den).le.trans_eq (by ring)
  have scaled {a b : ℚ} (le : a ≤ b) : a * 10 ^ k ≤ b * 10 ^ k :=
    mul_le_mul_of_nonneg_right le unit.le
  have next : (Scientific.mk (n / d) k).readsAs x = true ∨
      (Scientific.mk (n / d + 1) k).readsAs x = true := by
    rcases le_or_gt c (n / d) with below | above
    · exact .inl (readsAs_of_between parts coefficient bound (coefficient.trans_le below) bound reads
        (.inl ⟨scaled (by exact_mod_cast below), (scaled lower).trans_eq value⟩))
    · exact .inr (readsAs_of_between parts coefficient bound (Nat.succ_pos _) bound reads
        (.inr ⟨value.ge.trans (scaled upper), scaled (by exact_mod_cast above)⟩))
  cases below : (Scientific.mk (n / d) k).readsAs x with
  | true =>
    cases (Scientific.mk (n / d + 1) k).readsAs x with
    | true =>
      dsimp only
      split <;> exact ⟨_, rfl⟩
    | false => exact ⟨_, rfl⟩
  | false =>
    rw [next.resolve_left (by simp [below])]
    exact ⟨_, rfl⟩

/-- **The search stops at a grid no finer than one with a point that reads as the float**, if it gets
that far. -/
theorem exists_coarsestPoint? {c : ℕ} {k : ℤ} (parts : x.toModel.unpack = .finite .positive m e pos)
    (coefficient : 0 < c) (bound : k.natAbs ≤ 2048) (reads : (Scientific.mk c k).readsAs x = true)
    {tries : ℕ} {first : ℤ} (coarser : k ≤ first) (reached : first - tries < k) :
    ∃ d, coarsestPoint? x (scaledFraction m e).num.toNat (scaledFraction m e).den tries first =
      some d ∧ k ≤ d.exponent := by
  induction tries generalizing first with
  | zero => omega
  | succ tries ih =>
    rw [coarsestPoint?]
    cases found : gridPoint? x (scaledFraction m e).num.toNat (scaledFraction m e).den first with
    | some d => exact ⟨d, rfl, coarser.trans (exponent_of_gridPoint? found).ge⟩
    | none =>
      refine ih ?_ (by push_cast at reached; omega)
      rcases coarser.eq_or_lt with rfl | finer
      · obtain ⟨d, some⟩ := exists_gridPoint? parts coefficient bound reads
        rw [found] at some
        cases some
      · omega

end Reading

/-! ## 3. The decimal that is written -/

/-- The decimal that a float is written with is rounded to its size. -/
theorem nearestSize_shortest {x : Float} (finite : x.isFinite = true) :
    nearestSize (shortest x).toRat = |exactValue x| := by
  rcases unpack_of_isFinite finite with ⟨s, zero⟩ | ⟨s, m, e, pos, parts⟩
  · rw [toRat_shortest_of_zero zero, nearestSize_zero, exactValue_of_zero zero, abs_zero]
  · obtain ⟨same, coefficient, bound⟩ := toFloat_shortest parts
    have size := unpack_abs parts
    have reads : (shortest x).readsAs x.abs = true := by
      rw [Scientific.readsAs, same]
      exact beq_self (isFinite_of_unpack_finite size)
    rw [(readsAs_iff size coefficient (by omega)).mp reads, abs_exactValue_of_finite parts]

/-- Cents are not rounded to nothing. -/
theorem le_nearestSize_of_cents {c : ℕ} (cents : 0 < c) :
    (2 ^ (-7 : ℤ) : ℚ) ≤ nearestSize (c / 100) := by
  have power : nearestSize (2 ^ (-7 : ℤ)) = 2 ^ (-7 : ℤ) := by
    have least := nearestSize_canonical (m := 2 ^ 52) (e := -59)
      ⟨by decide, by decide, by decide, by decide, .inl le_rfl⟩
    norm_num at least ⊢
    exact least
  have one : (1 : ℚ) ≤ c := by exact_mod_cast cents
  exact power.ge.trans (nearestSize_mono (by norm_num) (by norm_num; linarith))

/-- What cents read as is large enough for the search to begin on a grid no finer than theirs. -/
theorem le_decimalScale_of_cents {x : Float} {m : ℕ} {e : ℤ} {pos : 0 < m} {c : ℕ}
    (parts : x.toModel.unpack = .finite .positive m e pos) (cents : 0 < c)
    (reads : (Scientific.mk c (-2)).readsAs x = true) : -2 ≤ decimalScale m e := by
  have size : (2 ^ (-7 : ℤ) : ℚ) ≤ m * 2 ^ e := by
    rw [← (readsAs_cents_iff parts cents).mp reads]
    exact le_nearestSize_of_cents cents
  have bits : (m * 2 ^ e : ℚ) < 2 ^ (m.log2 + 1 + e : ℤ) := by
    rw [zpow_add₀ two_ne_zero]
    have : (m : ℚ) < 2 ^ (m.log2 + 1 : ℤ) := by exact_mod_cast Nat.lt_log2_self
    exact mul_lt_mul_of_pos_right this (zpow_pos two_pos e)
  have digits : -7 < (m.log2 + 1 + e : ℤ) := (zpow_lt_zpow_iff_right₀ one_lt_two).mp (size.trans_lt bits)
  rw [decimalScale, bitCount, if_neg pos.ne']
  push_cast
  omega

/-- **What cents read as is written with two places at most.**  The search finds a point on the grid of
cents or on a coarser one; if it does not get that far, the float is a whole number. -/
theorem exponent_shortest_of_cents {x : Float} {s : UnpackedFloat.Sign} {m : ℕ} {e : ℤ} {pos : 0 < m}
    {c : ℕ} (parts : x.toModel.unpack = .finite s m e pos) (cents : 0 < c)
    (reads : (Scientific.mk c (-2)).readsAs x.abs = true) : -2 ≤ (shortest x).exponent := by
  have size := unpack_abs parts
  have first := le_decimalScale_of_cents size cents reads
  have short : m.log2 < 53 := (Nat.log2_lt pos.ne').mpr (canonical_of_unpack parts).short
  simp only [shortest, parts]
  rcases lt_or_ge (decimalScale m e) 22 with near | far
  · have reached : decimalScale m e - (24 : ℕ) < -2 := by push_cast; omega
    obtain ⟨d, found, grid⟩ := exists_coarsestPoint? size cents (by decide) reads first reached
    rwa [found]
  · cases found : coarsestPoint? x.abs (scaledFraction m e).num.toNat (scaledFraction m e).den 24
      (decimalScale m e) with
    | some d =>
      have grid := exponent_of_coarsestPoint? found
      rw [Option.getD_some]
      push_cast at grid
      omega
    | none =>
      have whole : 0 ≤ e := by
        rw [decimalScale, bitCount, if_neg pos.ne'] at far
        push_cast at far
        omega
      rw [Option.getD_none, allDigits, if_pos whole]
      exact (by decide : (-2 : ℤ) ≤ 0)

end Haulage
