import DataCondition.Proofs.Numeral.Rounding

/-!
# Doubles in their bits

A number becomes infinite in the bits of a double exactly if its exponent exceeds the largest one.
Nothing else becomes infinite, and nothing becomes the missing number.
-/

namespace DataCondition

namespace Numeral

open Float.Model (Format UnpackedFloat)
open Float.Model.UnpackedFloat

/-- The exponent of the largest doubles. -/
def largestExponent : Int := 971

section Bits

variable {bits : BitVec Format.binary64.numBits}

theorem isInf_unpack_iff :
    (unpack .binary64 bits).isInf ↔
      unpackExponent bits = -1#11 ∧ unpackMantissa bits = 0#52 := by
  rw [unpack]
  dsimp only
  split
  next full =>
    split
    next zero => simp [isInf, full, zero]
    next nonzero => simp [isInf, nonzero]
  next less =>
    refine iff_of_false ?_ fun both => less both.1
    split
    next => split <;> simp [isInf]
    next => simp [isInf]

theorem isNaN_unpack_iff :
    (unpack .binary64 bits).isNaN ↔
      unpackExponent bits = -1#11 ∧ unpackMantissa bits ≠ 0#52 := by
  rw [unpack]
  dsimp only
  split
  next full =>
    split
    next zero => simp [isNaN, zero]
    next nonzero => simp [isNaN, full, nonzero]
  next less =>
    refine iff_of_false ?_ fun both => less both.1
    split
    next => split <;> simp [isNaN]
    next => simp [isNaN]

section Finite

variable {sign : Sign} {mantissa : Nat} {exponent : Int} {positive : 0 < mantissa}
  (unpacked : unpack .binary64 bits = .finite sign mantissa exponent positive)

include unpacked

theorem mantissa_lt_of_unpack : mantissa < 2 ^ 53 := by
  rw [unpack] at unpacked
  dsimp only at unpacked
  split at unpacked
  next => split at unpacked <;> cases unpacked
  split at unpacked
  next =>
    split at unpacked
    next => cases unpacked
    next =>
      cases unpacked
      exact (unpackMantissa bits).isLt.trans (by decide)
  next =>
    cases unpacked
    exact (1#1 ++ unpackMantissa bits).isLt

/-- The smallest exponent is stored as zero and as one. -/
theorem exponent_of_unpack :
    unpackExponent bits ≠ -1#11 ∧ exponent = max 1 (unpackExponent bits).toNat - 1075 := by
  rw [unpack] at unpacked
  dsimp only at unpacked
  split at unpacked
  next => split at unpacked <;> cases unpacked
  next less =>
    refine ⟨less, ?_⟩
    split at unpacked
    next zero =>
      split at unpacked
      next => cases unpacked
      next =>
        cases unpacked
        rw [zero]
        rfl
    next nonzero =>
      cases unpacked
      have positive : (unpackExponent bits).toNat ≠ 0 := by
        simpa [BitVec.toNat_eq] using nonzero
      simp only [Format.exponentBias]
      norm_num
      omega

theorem exponent_le_of_unpack : exponent ≤ largestExponent := by
  obtain ⟨less, rfl⟩ := exponent_of_unpack unpacked
  have stored : (unpackExponent bits).toNat < 2 ^ 11 := (unpackExponent bits).isLt
  have differ : (unpackExponent bits).toNat ≠ 2047 := by
    intro full
    exact less (BitVec.eq_of_toNat_eq full)
  rw [largestExponent]
  omega

end Finite

/-- No exponent that is stored is larger than the largest one. -/
theorem exceeds_unpack_iff :
    Exceeds largestExponent (unpack .binary64 bits) ↔ (unpack .binary64 bits).isInf := by
  cases result : unpack .binary64 bits with
  | infinity sign => exact iff_of_true trivial rfl
  | notANumber => exact iff_of_false id Bool.false_ne_true
  | zero sign => exact iff_of_false id Bool.false_ne_true
  | finite sign mantissa exponent positive =>
      exact iff_of_false (Int.not_lt.mpr (exponent_le_of_unpack result)) Bool.false_ne_true

end Bits

theorem exceeds_neg_iff {limit : Int} {value : UnpackedFloat} :
    Exceeds limit value.neg ↔ Exceeds limit value := by
  cases value <;> rfl

/-- A number with a large exponent is stored as infinity, another with an exponent of its own. -/
theorem pack_finite (sign : Sign) (mantissa : Nat) (exponent : Int) (positive : 0 < mantissa) :
    (largestExponent < exponent ∧
      pack .binary64 (.finite sign mantissa exponent positive) = packedInfinity .binary64 sign) ∨
    (exponent ≤ largestExponent ∧ ∃ (stored : BitVec 11) (fraction : BitVec 52),
      pack .binary64 (.finite sign mantissa exponent positive) =
        packComponents .binary64 sign stored fraction ∧
      stored ≠ -1#11 ∧ stored.toNat ≤ (exponent + 1075).toNat) := by
  have biased : exponent + Format.binary64.exponentBias +
      Format.binary64.mantissaBitsWithoutImplicit = exponent + 1075 := by
    simp only [Format.exponentBias]
    norm_num
    omega
  rw [pack, biased, largestExponent]
  dsimp only
  split
  next full =>
    exact .inl ⟨by omega, rfl⟩
  next room =>
    refine .inr ⟨by omega, ?_⟩
    split
    · have same : (BitVec.ofNat 11 (exponent + 1075).toNat).toNat = (exponent + 1075).toNat :=
        Nat.mod_eq_of_lt (by omega)
      refine ⟨.ofNat 11 (exponent + 1075).toNat, _, rfl, fun full => ?_, same.le⟩
      rw [full] at same
      have last : (-1#11).toNat = 2047 := by decide
      omega
    · exact ⟨0#11, _, rfl, by decide, Nat.zero_le _⟩

theorem isInf_unpack_pack (value : UnpackedFloat) :
    (unpack .binary64 (pack .binary64 value)).isInf ↔ Exceeds largestExponent value := by
  rw [isInf_unpack_iff]
  cases value with
  | infinity sign => simp [pack, packedInfinity, Exceeds]
  | notANumber => simp [pack, packedNaN, Exceeds]
  | zero sign => simp [pack, packedZero, Exceeds]
  | finite sign mantissa exponent positive =>
      rcases pack_finite sign mantissa exponent positive with
        ⟨large, infinite⟩ | ⟨small, stored, fraction, shape, less, -⟩
      · rw [infinite]
        simp [packedInfinity, Exceeds, large]
      · rw [shape, unpackExponent_packComponents]
        exact iff_of_false (fun full => less full.1) (Int.not_lt.mpr small)

theorem isNaN_unpack_pack (value : UnpackedFloat) :
    (unpack .binary64 (pack .binary64 value)).isNaN = value.isNaN := by
  rw [Bool.eq_iff_iff, isNaN_unpack_iff]
  cases value with
  | infinity sign => simp [pack, packedInfinity, isNaN]
  | notANumber => simp [pack, packedNaN, isNaN]
  | zero sign => simp [pack, packedZero, isNaN]
  | finite sign mantissa exponent positive =>
      rcases pack_finite sign mantissa exponent positive with
        ⟨large, infinite⟩ | ⟨small, stored, fraction, shape, less, -⟩
      · rw [infinite]
        simp [packedInfinity, isNaN]
      · rw [shape, unpackExponent_packComponents]
        exact iff_of_false (fun full => less full.1) Bool.false_ne_true

theorem Exceeds.mono {lower upper : Int} (less : lower ≤ upper) {value : UnpackedFloat}
    (exceeds : Exceeds upper value) : Exceeds lower value := by
  cases value with
  | infinity sign => trivial
  | finite sign mantissa exponent positive => exact lt_of_le_of_lt less exceeds
  | _ => cases exceeds

/-- No exponent grows by being stored, as long as there is one for it. -/
theorem exceeds_of_unpack_pack {limit : Int} (least : -1074 ≤ limit)
    (most : limit ≤ largestExponent) {value : UnpackedFloat}
    (exceeds : Exceeds limit (unpack .binary64 (pack .binary64 value))) : Exceeds limit value := by
  cases result : unpack .binary64 (pack .binary64 value) with
  | infinity sign =>
      refine Exceeds.mono most ((isInf_unpack_pack value).mp ?_)
      rw [result]
      rfl
  | notANumber => rw [result] at exceeds; cases exceeds
  | zero sign => rw [result] at exceeds; cases exceeds
  | finite sign mantissa exponent positive =>
      obtain ⟨-, stored⟩ := exponent_of_unpack result
      rw [result] at exceeds
      change limit < exponent at exceeds
      cases value with
      | infinity sign => trivial
      | notANumber =>
          have missing := isNaN_unpack_pack .notANumber
          rw [result] at missing
          cases missing
      | zero sign =>
          rw [pack, packedZero, unpackExponent_packComponents] at stored
          have none : (0 : BitVec Format.binary64.exponentBits).toNat = 0 := rfl
          omega
      | finite sign' mantissa' exponent' positive' =>
          rcases pack_finite sign' mantissa' exponent' positive' with
            ⟨large, -⟩ | ⟨small, biased, fraction, shape, -, bound⟩
          · exact lt_of_le_of_lt most large
          · rw [shape, unpackExponent_packComponents] at stored
            change limit < exponent'
            omega

end Numeral

end DataCondition
