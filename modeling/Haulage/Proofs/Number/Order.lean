/-
# The order of numbers

A finite float equals a rational number, its `exactValue`.  Finite floats, and integers beside them,
compare as these rationals do (`compareFloats_eq`, `compareInt_eq`), so among numbers that are finite
the order is total.  Two finite floats of one value are the same, unless both are zero; then they
compare alike with everything.
-/
import Haulage.Proofs.Number.Packing
import Haulage.Number.Basic

namespace Haulage

open Float.Model (UnpackedFloat Format)
open Float.Model.UnpackedFloat (packComponents)

/-! ## 1. Exact values -/

/-- The rational number that a finite float equals. -/
def exactValue (x : Float) : ℚ :=
  match x.toModel.unpack with
  | .finite s m e _ => s.apply m * 2 ^ e
  | _ => 0

theorem exactValue_of_finite {x : Float} {s : UnpackedFloat.Sign} {m : ℕ} {e : ℤ} {pos : 0 < m}
    (h : x.toModel.unpack = .finite s m e pos) : exactValue x = s.apply m * 2 ^ e := by
  rw [exactValue, h]

/-- A sign does not change the size. -/
theorem abs_exactValue_of_finite {x : Float} {s : UnpackedFloat.Sign} {m : ℕ} {e : ℤ} {pos : 0 < m}
    (h : x.toModel.unpack = .finite s m e pos) : |exactValue x| = m * 2 ^ e := by
  have size := abs_of_pos (size_pos pos e)
  rw [exactValue_of_finite h]
  cases s <;> simp [UnpackedFloat.Sign.apply, size]

theorem exactValue_of_zero {x : Float} {s : UnpackedFloat.Sign} (h : x.toModel.unpack = .zero s) :
    exactValue x = 0 := by
  rw [exactValue, h]

/-- A finite float is a zero or comes apart into a mantissa and an exponent. -/
theorem unpack_of_isFinite {x : Float} (h : x.isFinite = true) :
    (∃ s, x.toModel.unpack = .zero s) ∨
      ∃ s m e pos, x.toModel.unpack = .finite s m e pos := by
  have h : x.toModel.unpack.isFinite = true := h
  match parts : x.toModel.unpack with
  | .zero s => exact .inl ⟨s, rfl⟩
  | .finite s m e pos => exact .inr ⟨s, m, e, pos, rfl⟩
  | .infinity _ => simp [parts, UnpackedFloat.isFinite] at h
  | .notANumber => simp [parts, UnpackedFloat.isFinite] at h

theorem isFinite_of_unpack_finite {x : Float} {s : UnpackedFloat.Sign} {m : ℕ} {e : ℤ}
    {pos : 0 < m} (h : x.toModel.unpack = .finite s m e pos) : x.isFinite = true := by
  change x.toModel.unpack.isFinite = true
  rw [h]
  rfl

theorem isFinite_of_unpack_zero {x : Float} {s : UnpackedFloat.Sign}
    (h : x.toModel.unpack = .zero s) : x.isFinite = true := by
  change x.toModel.unpack.isFinite = true
  rw [h]
  rfl

/-- A finite float is a number, and not infinite. -/
theorem not_isNaN_of_isFinite {x : Float} (h : x.isFinite = true) :
    x.isNaN = false ∧ x.isInf = false := by
  change x.toModel.unpack.isNaN = false ∧ x.toModel.unpack.isInf = false
  rcases unpack_of_isFinite h with ⟨s, parts⟩ | ⟨s, m, e, pos, parts⟩ <;> rw [parts] <;>
    exact ⟨rfl, rfl⟩

theorem isNaN_or_isInf {x : Float} (h : x.isFinite = false) : x.isNaN = true ∨ x.isInf = true := by
  change x.toModel.unpack.isFinite = false at h
  change x.toModel.unpack.isNaN = true ∨ x.toModel.unpack.isInf = true
  generalize x.toModel.unpack = parts at h ⊢
  cases parts with
  | notANumber => exact .inl rfl
  | infinity s => exact .inr rfl
  | zero s => cases h
  | finite s m e pos => cases h

/-- The fraction `n · 2^e` has the value that it is written for. -/
theorem num_scaledFraction (n e : ℤ) :
    ((scaledFraction n e).num : ℚ) = n * 2 ^ e * (scaledFraction n e).den := by
  unfold scaledFraction
  split
  · rename_i nonneg
    obtain ⟨k, rfl⟩ := Int.eq_ofNat_of_zero_le nonneg
    simp
  · rename_i negative
    obtain ⟨k, rfl⟩ : ∃ k : ℕ, e = -k := ⟨(-e).toNat, by omega⟩
    simp

/-! ## 2. Comparing -/

theorem lt_iff_compare (x y : Float) :
    x < y ↔ x.toModel.unpack.compare y.toModel.unpack = some .lt := by
  have : x < y ↔ decide (x.toModel < y.toModel) = true := Iff.rfl
  rw [this, decide_eq_true_eq]
  change (x.toModel.unpack.compare y.toModel.unpack == some .lt) = true ↔ _
  exact beq_iff_eq

theorem beq_iff_compare (x y : Float) :
    (x == y) = true ↔ x.toModel.unpack.compare y.toModel.unpack = some .eq := by
  change (x.toModel.unpack.compare y.toModel.unpack == some .eq) = true ↔ _
  exact beq_iff_eq

/-- Changing places turns the order around. -/
theorem swap_compare_unpacked (u v : UnpackedFloat) :
    (u.compare v).map Ordering.swap = v.compare u := by
  have pairs (m n : ℕ) (e k : ℤ) :
      ((compare e k).then (compare m n)).swap = (compare k e).then (compare n m) := by
    rw [Ordering.swap_then, Int.compare_swap, Nat.compare_swap]
  cases u with
  | notANumber => cases v <;> rfl
  | infinity s =>
    cases v with
    | infinity t => cases s <;> cases t <;> rfl
    | _ => cases s <;> rfl
  | zero s =>
    cases v with
    | notANumber | zero => rfl
    | infinity t | finite t => cases t <;> rfl
  | finite s m e =>
    cases v with
    | notANumber | zero => cases s <;> rfl
    | infinity t => cases s <;> cases t <;> rfl
    | finite t n k =>
      cases s <;> cases t
      · exact congrArg (some ∘ Ordering.swap) (pairs m n e k)
      · rfl
      · rfl
      · exact congrArg some (pairs m n e k)

/-- The order of two floats is that of what they come apart into. -/
theorem compareFloats_eq_compare (x y : Float) :
    Number.compareFloats x y = x.toModel.unpack.compare y.toModel.unpack := by
  have swap := swap_compare_unpacked x.toModel.unpack y.toModel.unpack
  rw [Number.compareFloats]
  simp only [lt_iff_compare, beq_iff_compare, ← swap]
  cases x.toModel.unpack.compare y.toModel.unpack with
  | none => rfl
  | some o => cases o <;> rfl

/-- Comparing does not see the unit that naturals are counted in. -/
theorem compare_mul_right {c : ℚ} (pos : 0 < c) (m n : ℕ) :
    compare (m * c) (n * c) = compare m n := by
  rw [← cmp_eq_compare, ← cmp_eq_compare, cmp_mul_pos_right pos, Nat.strictMono_cast.cmp_map_eq]

/-- Changing both signs turns the order around. -/
theorem swap_compare (a b : ℚ) : (compare a b).swap = compare (-a) (-b) := by
  have anti : StrictAnti (Neg.neg : ℚ → ℚ) := fun _ _ => neg_lt_neg
  rw [← cmp_eq_compare, ← cmp_eq_compare, cmp_swap, anti.cmp_map_eq]

/-- Canonical pairs compare as their values do: of two exponents the greater goes with a mantissa of
full length, or it would not be the greater. -/
theorem compare_canonical {m n : ℕ} {e k : ℤ} (hm : Canonical m e) (hn : Canonical n k) :
    (compare e k).then (compare m n) = compare (m * 2 ^ e : ℚ) (n * 2 ^ k) := by
  have less {m n : ℕ} {e k : ℤ} (hm : Canonical m e) (hn : Canonical n k) (lt : e < k) :
      (m * 2 ^ e : ℚ) < n * 2 ^ k := by
    have long : 2 ^ 52 ≤ n := hn.full.resolve_right fun least => by
      have := hm.least
      omega
    calc (m * 2 ^ e : ℚ) < 2 ^ 53 * 2 ^ e := by
          have : (m : ℚ) < 2 ^ 53 := by exact_mod_cast hm.short
          exact mul_lt_mul_of_pos_right this (zpow_pos two_pos e)
      _ = 2 ^ 52 * 2 ^ (e + 1) := by rw [zpow_add_one₀ two_ne_zero]; ring
      _ ≤ n * 2 ^ k := by
          have long : (2 ^ 52 : ℚ) ≤ n := by exact_mod_cast long
          have power : (2 : ℚ) ^ (e + 1) ≤ 2 ^ k := zpow_le_zpow_right₀ one_le_two lt
          exact mul_le_mul long power (zpow_pos two_pos _).le (Nat.cast_nonneg n)
  rcases lt_trichotomy e k with lt | rfl | gt
  · rw [compare_lt_iff_lt.mpr lt, compare_lt_iff_lt.mpr (less hm hn lt)]
    rfl
  · rw [compare_eq_iff_eq.mpr rfl, Ordering.eq_then]
    exact (compare_mul_right (zpow_pos two_pos e) m n).symm
  · rw [compare_gt_iff_gt.mpr gt, compare_gt_iff_gt.mpr (less hn hm gt)]
    rfl

/-- **Finite floats compare as their values do.** -/
theorem compare_unpack {x y : Float} (hx : x.isFinite = true) (hy : y.isFinite = true) :
    x.toModel.unpack.compare y.toModel.unpack = some (compare (exactValue x) (exactValue y)) := by
  rcases unpack_of_isFinite hx with ⟨s, hx⟩ | ⟨s, m, e, hm, hx⟩ <;>
    rcases unpack_of_isFinite hy with ⟨t, hy⟩ | ⟨t, n, k, hn, hy⟩
  · rw [exactValue_of_zero hx, exactValue_of_zero hy, hx, hy, compare_eq_iff_eq.mpr rfl]
    rfl
  · have := size_pos hn k
    rw [exactValue_of_zero hx, exactValue_of_finite hy, hx, hy]
    cases t
    · rw [compare_gt_iff_gt.mpr (by simpa [UnpackedFloat.Sign.apply] using this)]
      rfl
    · rw [compare_lt_iff_lt.mpr (by simpa [UnpackedFloat.Sign.apply] using this)]
      rfl
  · have := size_pos hm e
    rw [exactValue_of_finite hx, exactValue_of_zero hy, hx, hy]
    cases s
    · rw [compare_lt_iff_lt.mpr (by simpa [UnpackedFloat.Sign.apply] using this)]
      rfl
    · rw [compare_gt_iff_gt.mpr (by simpa [UnpackedFloat.Sign.apply] using this)]
      rfl
  · have := size_pos hm e
    have := size_pos hn k
    have same := compare_canonical (canonical_of_unpack hx) (canonical_of_unpack hy)
    rw [exactValue_of_finite hx, exactValue_of_finite hy, hx, hy]
    cases s <;> cases t
    · change some ((compare e k).then (compare m n)).swap = some _
      rw [same, swap_compare]
      simp [UnpackedFloat.Sign.apply]
    · rw [compare_lt_iff_lt.mpr (by simp [UnpackedFloat.Sign.apply]; linarith)]
      rfl
    · rw [compare_gt_iff_gt.mpr (by simp [UnpackedFloat.Sign.apply]; linarith)]
      rfl
    · change some _ = some _
      rw [same]
      rfl

theorem lt_iff {x y : Float} (hx : x.isFinite = true) (hy : y.isFinite = true) :
    x < y ↔ exactValue x < exactValue y := by
  rw [lt_iff_compare, compare_unpack hx hy, Option.some_inj, compare_lt_iff_lt]

theorem le_iff {x y : Float} (hx : x.isFinite = true) (hy : y.isFinite = true) :
    x ≤ y ↔ exactValue x ≤ exactValue y := by
  have order : x ≤ y ↔ decide (x.toModel ≤ y.toModel) = true := Iff.rfl
  rw [order, decide_eq_true_eq]
  change x.toModel.unpack.le y.toModel.unpack = true ↔ _
  rw [UnpackedFloat.le, compare_unpack hx hy, ← compare_le_iff_le]
  cases compare (exactValue x) (exactValue y) <;> decide

theorem beq_iff {x y : Float} (hx : x.isFinite = true) (hy : y.isFinite = true) :
    (x == y) = true ↔ exactValue x = exactValue y := by
  rw [beq_iff_compare, compare_unpack hx hy, Option.some_inj, compare_eq_iff_eq]

theorem beq_self {x : Float} (finite : x.isFinite = true) : (x == x) = true :=
  (beq_iff finite finite).mpr rfl

theorem exactValue_zero : exactValue 0 = 0 := exactValue_of_zero rfl

theorem lt_zero_iff_exactValue {x : Float} (finite : x.isFinite = true) :
    x < 0 ↔ exactValue x < 0 := by
  rw [lt_iff finite rfl, exactValue_zero]

/-- The floats below zero are those with a minus sign. -/
theorem lt_zero_iff {x : Float} {s : UnpackedFloat.Sign} {m : ℕ} {e : ℤ} {pos : 0 < m}
    (h : x.toModel.unpack = .finite s m e pos) : x < 0 ↔ s = .negative := by
  have zero : (0 : Float).toModel.unpack = .zero .positive := rfl
  rw [lt_iff_compare, h, zero]
  cases s
  · exact ⟨fun _ => rfl, fun _ => rfl⟩
  · exact ⟨nofun, nofun⟩

theorem compareFloats_eq {x y : Float} (hx : x.isFinite = true) (hy : y.isFinite = true) :
    Number.compareFloats x y = some (compare (exactValue x) (exactValue y)) := by
  rw [compareFloats_eq_compare, compare_unpack hx hy]

/-- An integer and a finite float compare as their values do. -/
theorem compareInt_eq (n : ℤ) {y : Float} (hy : y.isFinite = true) :
    Exact.compareInt n y = some (compare (n : ℚ) (exactValue y)) := by
  have cast (a b : ℤ) : compare a b = compare (a : ℚ) b := by
    rw [← cmp_eq_compare, ← cmp_eq_compare, Int.cast_strictMono.cmp_map_eq]
  rcases unpack_of_isFinite hy with ⟨s, parts⟩ | ⟨s, m, e, pos, parts⟩
  · rw [Exact.compareInt, parts, exactValue_of_zero parts]
    exact congrArg some (by simpa using cast n 0)
  · have den : (0 : ℚ) < (scaledFraction (s.apply m) e).den := by
      exact_mod_cast (scaledFraction (s.apply m) e).den_pos
    rw [Exact.compareInt, parts, exactValue_of_finite parts]
    dsimp only
    rw [cast, num_scaledFraction]
    push_cast
    rw [← cmp_eq_compare, ← cmp_eq_compare, cmp_mul_pos_right den]

/-! ## 3. Floats of one value -/

/-- What compares as equal to a finite float is the float, unless both are zero. -/
theorem eq_or_zero_of_compare_eq {x y : Float}
    (h : x.toModel.unpack.compare y.toModel.unpack = some .eq) :
    x = y ∨ ∃ s t, x.toModel.unpack = .zero s ∧ y.toModel.unpack = .zero t := by
  unfold UnpackedFloat.compare at h
  split at h
  any_goals cases h
  · rename_i s t hx hy
    refine .inl (eq_of_unpack_eq ?_)
    rw [hx, hy]
    cases s <;> cases t <;> simp_all
  · rename_i hx hy
    exact .inr ⟨_, _, hx, hy⟩
  · rename_i hx hy
    refine .inl (eq_of_unpack_eq ?_)
    rw [hx, hy]
    simp_all
  · rename_i hx hy
    refine .inl (eq_of_unpack_eq ?_)
    rw [hx, hy]
    simp_all

theorem compare_zero (u : UnpackedFloat) (s t : UnpackedFloat.Sign) :
    u.compare (.zero s) = u.compare (.zero t) := by
  cases u with
  | notANumber => rfl
  | zero => rfl
  | infinity sign => cases sign <;> rfl
  | finite sign => cases sign <;> rfl

/-- Floats that compare as equal are in the same order to any number. -/
theorem compare?_congr (n : Number) {y z : Float} (same : (y == z) = true) :
    n.compare? (.float y) = n.compare? (.float z) := by
  rcases eq_or_zero_of_compare_eq ((beq_iff_compare y z).mp same) with rfl | ⟨s, t, hy, hz⟩
  · rfl
  · cases n with
    | int n =>
      change Exact.compareInt n y = Exact.compareInt n z
      rw [Exact.compareInt, Exact.compareInt, hy, hz]
    | float x =>
      change Number.compareFloats x y = Number.compareFloats x z
      rw [compareFloats_eq_compare, compareFloats_eq_compare, hy, hz, compare_zero]

/-- Changing places turns the order of two numbers around. -/
theorem swap_compare? (n : Number) (y : Float) :
    (n.compare? (.float y)).map Ordering.swap = Number.compare? (.float y) n := by
  cases n with
  | int n => rfl
  | float x =>
    change (Number.compareFloats x y).map Ordering.swap = Number.compareFloats y x
    rw [compareFloats_eq_compare, compareFloats_eq_compare, swap_compare_unpacked]

/-- Unless it is no number at all, a number is below a finite float, equal to it or above it. -/
theorem exists_compare? {n : Number} {y : Float} (hn : ∀ x, n = .float x → x.isNaN = false)
    (hy : y.isFinite = true) : ∃ o, n.compare? (.float y) = some o := by
  cases n with
  | int n => exact ⟨_, compareInt_eq n hy⟩
  | float x =>
    have number : x.toModel.unpack.isNaN = false := hn x rfl
    change ∃ o, Number.compareFloats x y = some o
    rw [compareFloats_eq_compare]
    match parts : x.toModel.unpack with
    | .notANumber => simp [parts, UnpackedFloat.isNaN] at number
    | .infinity s =>
      rcases unpack_of_isFinite hy with ⟨t, hy⟩ | ⟨t, n, k, pos, hy⟩ <;> rw [hy] <;> cases s <;>
        exact ⟨_, rfl⟩
    | .zero s =>
      have hx : x.isFinite = true := by
        change x.toModel.unpack.isFinite = true
        rw [parts]
        rfl
      exact ⟨_, parts ▸ compare_unpack hx hy⟩
    | .finite s m e pos =>
      have hx : x.isFinite = true := by
        change x.toModel.unpack.isFinite = true
        rw [parts]
        rfl
      exact ⟨_, parts ▸ compare_unpack hx hy⟩

/-- A number that is not below zero is above it, unless it is zero. -/
theorem pos_iff_of_not_neg {x : Float} (number : x.isNaN = false) (nonneg : ¬ x < 0) :
    0 < x ↔ (x == 0) = false := by
  obtain ⟨o, order⟩ := exists_compare? (n := .float x) (y := 0)
    (fun _ same => Number.float.inj same ▸ number) rfl
  change Number.compareFloats x 0 = some o at order
  rw [compareFloats_eq_compare] at order
  rw [lt_iff_compare, order, Option.some.injEq] at nonneg
  rw [lt_iff_compare, ← swap_compare_unpacked, ← Bool.not_eq_true, beq_iff_compare, order]
  cases o with
  | lt => exact absurd rfl nonneg
  | eq => decide
  | gt => decide

end Haulage
