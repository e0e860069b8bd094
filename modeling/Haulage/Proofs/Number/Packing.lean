/-
# Floats and what they are made of

A float is a sign, an exponent and a mantissa in 64 bits.  Taking it apart and putting it together
again loses nothing (`pack_unpack`).  A finite one that is not zero comes apart into a mantissa and an
exponent that are `Canonical`, and every such pair is what some float comes apart into
(`unpack_pack`).
-/
import Haulage.Number.Shortest
import Mathlib

namespace Haulage

open Float.Model (UnpackedFloat Format)
open Float.Model.UnpackedFloat (packComponents unpackSign unpackExponent unpackMantissa
  unpackMantissa_packComponents unpackExponent_packComponents)

/-! ## 1. The parts of a float -/

/-- The bits of a float with these parts. -/
abbrev bitsOf (sign : UnpackedFloat.Sign) (exponent : BitVec 11) (mantissa : BitVec 52) :
    BitVec 64 :=
  packComponents Format.binary64 sign exponent mantissa

theorem ofBitVec_toBitVec (sign : UnpackedFloat.Sign) : .ofBitVec sign.toBitVec = sign := by
  cases sign <;> rfl

theorem toBitVec_ofBitVec (b : BitVec 1) : (UnpackedFloat.Sign.ofBitVec b).toBitVec = b := by
  rcases BitVec.eq_zero_or_eq_one b with rfl | rfl <;> rfl

theorem unpackSign_bitsOf (sign : UnpackedFloat.Sign) (exponent : BitVec 11)
    (mantissa : BitVec 52) :
    @unpackSign Format.binary64 (bitsOf sign exponent mantissa) = sign.toBitVec := by
  simp only [unpackSign, bitsOf, packComponents, BitVec.extractLsb]
  ext i hi
  grind

/-- Any bits have parts. -/
theorem exists_bitsOf (b : BitVec 64) : ∃ sign exponent mantissa, b = bitsOf sign exponent mantissa := by
  refine ⟨.ofBitVec (@unpackSign Format.binary64 b), @unpackExponent Format.binary64 b,
    @unpackMantissa Format.binary64 b, ?_⟩
  simp only [bitsOf, packComponents, toBitVec_ofBitVec, unpackSign, unpackExponent, unpackMantissa,
    BitVec.extractLsb]
  ext i hi
  grind

/-- What bits with these parts stand for. -/
theorem unpack_bitsOf (sign : UnpackedFloat.Sign) (exponent : BitVec 11) (mantissa : BitVec 52) :
    UnpackedFloat.unpack Format.binary64 (bitsOf sign exponent mantissa) =
      if exponent = -1#11 then
        if mantissa = 0#52 then .infinity sign else .notANumber
      else if exponent = 0#11 then
        if h : mantissa = 0#52 then .zero sign
        else .finite sign mantissa.toNat (-1074)
          (Nat.pos_of_ne_zero fun zero => h (BitVec.eq_of_toNat_eq zero))
      else .finite sign (2 ^ 52 + mantissa.toNat) (exponent.toNat - 1075) (by omega) := by
  have implicit : (1#1 ++ mantissa).toNat = 2 ^ 52 + mantissa.toNat := by
    rw [BitVec.toNat_append, ← Nat.shiftLeft_add_eq_or_of_lt mantissa.isLt]
    simp [Nat.shiftLeft_eq]
  unfold UnpackedFloat.unpack
  simp only [bitsOf, unpackMantissa_packComponents, unpackExponent_packComponents]
  rw [unpackSign_bitsOf, ofBitVec_toBitVec]
  split
  · rfl
  · split
    · rename_i zero
      subst zero
      rfl
    · simp only [implicit]
      rfl

/-! ## 2. Canonical pairs -/

/-- The mantissas and exponents of finite floats: a mantissa has its full number of digits, unless the
exponent is the least. -/
structure Canonical (m : ℕ) (e : ℤ) : Prop where
  pos : 0 < m
  short : m < 2 ^ 53
  least : -1074 ≤ e
  greatest : e ≤ 971
  full : 2 ^ 52 ≤ m ∨ e = -1074

/-- The value of such a pair is positive. -/
theorem size_pos {m : ℕ} (pos : 0 < m) (e : ℤ) : (0 : ℚ) < m * 2 ^ e :=
  mul_pos (Nat.cast_pos.mpr pos) (zpow_pos two_pos e)

theorem canonical_of_unpack {x : Float.Model} {sign : UnpackedFloat.Sign} {m : ℕ} {e : ℤ}
    {pos : 0 < m}
    (h : x.unpack = .finite sign m e pos) : Canonical m e := by
  obtain ⟨sign', exponent, mantissa, bits⟩ := exists_bitsOf x.toBits.toBitVec
  rw [Float.Model.unpack, bits, unpack_bitsOf] at h
  have := mantissa.isLt
  split at h
  · split at h <;> cases h
  · split at h
    · split at h
      · cases h
      · obtain ⟨rfl, rfl, rfl⟩ : sign' = sign ∧ mantissa.toNat = m ∧ -1074 = e := by simpa using h
        exact ⟨pos, by omega, by omega, by omega, .inr rfl⟩
    · rename_i notMax notZero
      obtain ⟨rfl, rfl, rfl⟩ : sign' = sign ∧ 2 ^ 52 + mantissa.toNat = m ∧
          (exponent.toNat : ℤ) - 1075 = e := by simpa using h
      have positive : exponent.toNat ≠ 0 := fun zero => notZero (BitVec.eq_of_toNat_eq zero)
      have less : exponent.toNat ≠ 2047 := fun max => notMax (BitVec.eq_of_toNat_eq max)
      have := exponent.isLt
      exact ⟨pos, by omega, by omega, by omega, .inl (by omega)⟩

theorem pack_finite {sign : UnpackedFloat.Sign} {m : ℕ} {e : ℤ} (h : Canonical m e) :
    UnpackedFloat.pack Format.binary64 (.finite sign m e h.pos) =
      if 2 ^ 52 ≤ m then bitsOf sign (BitVec.ofNat 11 (e + 1075).toNat) (BitVec.ofNat 52 m)
      else bitsOf sign 0#11 (BitVec.ofNat 52 m) := by
  have nonzero : m ≠ 0 := h.pos.ne'
  have := h.least
  have := h.greatest
  have biased : (e + (Format.binary64.exponentBias : ℤ) +
      (Format.binary64.mantissaBitsWithoutImplicit : ℤ)).toNat = (e + 1075).toNat := by
    have : (Format.binary64.exponentBias : ℤ) = 1023 := by decide
    have : (Format.binary64.mantissaBitsWithoutImplicit : ℤ) = 52 := rfl
    omega
  have bits : Format.binary64.mantissaBits = 53 := rfl
  simp only [UnpackedFloat.pack, biased, bits]
  rw [if_neg (by omega)]
  by_cases full : 2 ^ 52 ≤ m
  · have log : m.log2 = 52 := (Nat.log2_eq_iff nonzero).mpr ⟨full, h.short⟩
    rw [if_pos (by omega), if_pos full]
  · have log : m.log2 < 52 := (Nat.log2_lt nonzero).mpr (by omega)
    rw [if_neg (by omega), if_neg full]

/-- **A canonical pair comes out of the float that it is put into.** -/
theorem unpack_pack {sign : UnpackedFloat.Sign} {m : ℕ} {e : ℤ} (h : Canonical m e) :
    (Float.Model.pack (.finite sign m e h.pos)).unpack = .finite sign m e h.pos := by
  have := h.least
  have := h.greatest
  have := h.short
  change UnpackedFloat.unpack Format.binary64
    (UnpackedFloat.pack Format.binary64 (.finite sign m e h.pos)) = _
  rw [pack_finite h]
  split
  · rename_i full
    have exponent : (BitVec.ofNat 11 (e + 1075).toNat).toNat = (e + 1075).toNat := by
      rw [BitVec.toNat_ofNat, Nat.mod_eq_of_lt (by omega)]
    have mantissa : 2 ^ 52 + (BitVec.ofNat 52 m).toNat = m := by
      rw [BitVec.toNat_ofNat]
      omega
    have notMax : BitVec.ofNat 11 (e + 1075).toNat ≠ -1#11 := fun max => by
      have max : (e + 1075).toNat = 2047 := exponent ▸ congrArg BitVec.toNat max
      omega
    have notZero : BitVec.ofNat 11 (e + 1075).toNat ≠ 0#11 := fun zero => by
      have zero : (e + 1075).toNat = 0 := exponent ▸ congrArg BitVec.toNat zero
      rcases h.full with _ | least <;> omega
    rw [unpack_bitsOf, if_neg notMax, if_neg notZero]
    simp only [mantissa, exponent, UnpackedFloat.finite.injEq, true_and]
    omega
  · rename_i low
    have mantissa : (BitVec.ofNat 52 m).toNat = m := by
      rw [BitVec.toNat_ofNat, Nat.mod_eq_of_lt (by omega)]
    have notZero : BitVec.ofNat 52 m ≠ 0#52 := fun zero => by
      have zero : m = 0 := mantissa ▸ congrArg BitVec.toNat zero
      exact h.pos.ne' zero
    rw [unpack_bitsOf, if_neg (by decide), if_pos rfl, dif_neg notZero]
    simp only [mantissa, UnpackedFloat.finite.injEq, true_and]
    rcases h.full with _ | least <;> omega

/-- What is put together from a number is a number, if perhaps an infinite one. -/
theorem isNaN_unpack_pack {u : UnpackedFloat} (number : u.isNaN = false) :
    (Float.Model.pack u).unpack.isNaN = false := by
  change (UnpackedFloat.unpack Format.binary64 (UnpackedFloat.pack Format.binary64 u)).isNaN = false
  have whole (sign : UnpackedFloat.Sign) (exponent : BitVec 11) (mantissa : BitVec 52)
      (bounded : exponent = -1#11 → mantissa = 0#52) :
      (UnpackedFloat.unpack Format.binary64 (bitsOf sign exponent mantissa)).isNaN = false := by
    rw [unpack_bitsOf]
    split
    · rename_i greatest
      rw [if_pos (bounded greatest)]
      rfl
    · split
      · split <;> rfl
      · rfl
  cases u with
  | notANumber => cases number
  | infinity s => exact whole s (-1#11) 0#52 fun _ => rfl
  | zero s => exact whole s 0#11 0#52 fun _ => rfl
  | finite s m e pos =>
    unfold UnpackedFloat.pack
    dsimp only
    split
    · exact whole s (-1#11) 0#52 fun _ => rfl
    split
    · rename_i below _
      refine whole s _ _ fun greatest => absurd (congrArg BitVec.toNat greatest) ?_
      have bits : 2 ^ Format.binary64.exponentBits = 2048 := rfl
      have ones : (-1#11).toNat = 2047 := by decide
      rw [BitVec.toNat_ofNat, ones]
      omega
    · exact whole s 0#11 _ fun greatest => absurd greatest (by decide)

/-- **Nothing is lost by taking a float apart.** -/
theorem pack_unpack (x : Float.Model) : Float.Model.pack x.unpack = x := by
  have bits : UnpackedFloat.pack Format.binary64 x.unpack = x.toBits.toBitVec := by
    obtain ⟨sign, exponent, mantissa, parts⟩ := exists_bitsOf x.toBits.toBitVec
    have canonical {m : ℕ} {e : ℤ} {pos : 0 < m} (h : x.unpack = .finite sign m e pos) :
        Canonical m e := canonical_of_unpack h
    have valid := x.valid.eq_packedNaN
    have whole : x.unpack = _ := parts ▸ unpack_bitsOf sign exponent mantissa
    rw [parts] at valid ⊢
    have := mantissa.isLt
    split at whole
    · rename_i max
      split at whole
      · rename_i zero
        rw [whole, max, zero]
        rfl
      · rename_i nonzero
        rw [whole]
        exact (valid (by simpa using max) (by simpa using nonzero)).symm
    · split at whole
      · rename_i least
        split at whole
        · rename_i zero
          rw [whole, least, zero]
          rfl
        · rw [whole, pack_finite (canonical whole), if_neg (by omega), least, BitVec.ofNat_toNat]
          rfl
      · have biased : ((exponent.toNat : ℤ) - 1075 + 1075).toNat = exponent.toNat := by omega
        have implicit : BitVec.ofNat 52 (2 ^ 52 + mantissa.toNat) = mantissa := by
          apply BitVec.eq_of_toNat_eq
          rw [BitVec.toNat_ofNat]
          omega
        rw [whole, pack_finite (canonical whole), if_pos (by omega), biased, implicit,
          BitVec.ofNat_toNat]
        rfl
  cases x
  simp only [Float.Model.pack, Float.Model.mk.injEq]
  simp only [Float.Model.unpack] at bits ⊢
  rw [bits]

/-- A float is determined by what it comes apart into. -/
theorem eq_of_unpack_eq {x y : Float} (h : x.toModel.unpack = y.toModel.unpack) : x = y := by
  have : x.toModel = y.toModel := by rw [← pack_unpack x.toModel, h, pack_unpack]
  cases x
  cases y
  exact congrArg Float.ofModel this

end Haulage
