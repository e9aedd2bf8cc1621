import DataCondition.Numeral.Decimal
import DataCondition.Proofs.Numeral.Packing
import DataCondition.Proofs.Numeral.Whole

/-!
# Which decimal numerals are infinite

The double nearest to a decimal numeral is infinite exactly if the numeral is half a last place
above the largest double or further. It is always a number.
-/

namespace DataCondition

namespace Numeral

open Float.Model (Format UnpackedFloat)
open Float.Model.UnpackedFloat

/-- The size from which on numbers are infinite: half a last place above the largest double. -/
def overflow : ℚ := 2 ^ 1024 - 2 ^ 970

theorem overflow_eq : (2 ^ 53 - 1 / 2) * 2 ^ largestExponent = overflow := by
  have top : (2 : ℚ) ^ 1024 = 2 ^ 53 * 2 ^ largestExponent := by
    rw [← zpow_natCast, ← zpow_natCast, ← zpow_add₀ two_ne_zero]
    congr 1
  have place : (2 : ℚ) ^ largestExponent = 2 * 2 ^ 970 := by
    rw [← zpow_natCast, ← zpow_one_add₀ two_ne_zero]
    congr 1
  rw [overflow, top, place]
  generalize (2 : ℚ) ^ 970 = half
  ring

theorem overflow_lt : overflow < 2 ^ 1024 :=
  sub_lt_self _ (by positivity)

theorem lt_overflow : 2 ^ 1023 < overflow := by
  have top : (2 : ℚ) ^ 1024 = 2 * 2 ^ 1023 := pow_succ' 2 1023
  have place : (2 : ℚ) ^ 970 < 2 ^ 1023 := pow_lt_pow_right₀ one_lt_two (by omega)
  rw [overflow, top]
  generalize (2 : ℚ) ^ 1023 = top at place
  generalize (2 : ℚ) ^ 970 = half at place
  linarith

theorem lt_overflow_of_le {size : ℚ} (small : size ≤ 2 ^ 128) : size < overflow :=
  calc size
    _ ≤ 2 ^ 128 := small
    _ ≤ 2 ^ 1023 := pow_le_pow_right₀ one_le_two (by omega)
    _ < overflow := lt_overflow

theorem one_lt_overflow : 1 < overflow :=
  lt_overflow_of_le (one_le_pow₀ one_le_two)

theorem exceeds_largestExponent_iff {sign : Sign} {mantissa : Nat} {exponent : Int}
    {accuracy : Accuracy} {size : ℚ}
    (represents : Represents (.ofMantissaAndAccuracy mantissa accuracy) (size / 2 ^ exponent))
    (below : exponent ≤ largestExponent) :
    Exceeds largestExponent (roundWithAccuracy .binary64 sign mantissa exponent accuracy) ↔
      overflow ≤ size := by
  rw [exceeds_roundWithAccuracy_iff represents (by decide) below, overflow_eq]

theorem isNaN_roundWithAccuracy (sign : Sign) (mantissa : Nat) (exponent : Int)
    (accuracy : Accuracy) :
    (roundWithAccuracy .binary64 sign mantissa exponent accuracy).isNaN = false := by
  rw [roundWithAccuracy]
  dsimp only
  split <;> rfl

section Operations

variable {sign sign' : Sign} {mantissa mantissa' : Nat} {exponent exponent' : Int}
  {positive : 0 < mantissa} {positive' : 0 < mantissa'}

theorem exceeds_mul_iff (below : exponent + exponent' ≤ largestExponent) :
    Exceeds largestExponent (mul .binary64 (.finite sign mantissa exponent positive)
      (.finite sign' mantissa' exponent' positive')) ↔
      overflow ≤ mantissa * 2 ^ exponent * (mantissa' * 2 ^ exponent') := by
  refine exceeds_largestExponent_iff ?_ below
  have size : (mantissa * 2 ^ exponent * (mantissa' * 2 ^ exponent') : ℚ) /
      2 ^ (exponent + exponent') = (mantissa * mantissa' : Nat) := by
    rw [zpow_add₀ two_ne_zero]
    push_cast
    field_simp
  rw [size]
  exact represents_exact _

theorem exceeds_div_iff (below : exponent - exponent' ≤ largestExponent) :
    Exceeds largestExponent (div .binary64 (.finite sign mantissa exponent positive)
      (.finite sign' mantissa' exponent' positive')) ↔
      overflow ≤ mantissa * 2 ^ exponent / (mantissa' * 2 ^ exponent') := by
  rw [div, divCore]
  dsimp only
  -- all that matters of the exponent of the quotient is that it is not above the exact one
  generalize bound : min (exponent - exponent') _ = target
  have shift : target ≤ exponent - exponent' := by
    rw [← bound]
    exact min_le_left _ _
  refine exceeds_largestExponent_iff ?_ (shift.trans below)
  have size : (mantissa * 2 ^ exponent / (mantissa' * 2 ^ exponent') : ℚ) / 2 ^ target =
      (mantissa <<< (exponent - exponent' - target).toNat : Nat) / mantissa' := by
    have power : (2 : ℚ) ^ exponent / 2 ^ exponent' / 2 ^ target =
        2 ^ (exponent - exponent' - target).toNat := by
      rw [← zpow_sub₀ two_ne_zero, ← zpow_sub₀ two_ne_zero, ← zpow_natCast,
        Int.toNat_of_nonneg (by omega)]
    rw [Nat.shiftLeft_eq, Nat.cast_mul, Nat.cast_pow, Nat.cast_ofNat, ← power]
    field_simp
  rw [size]
  exact represents_quotient _ positive'

end Operations

/-- A decimal number is rounded to infinity exactly if it is too large, however it is rounded. -/
theorem exceeds_ofScientific_iff (digits : Nat) (exponent : Int) :
    Exceeds largestExponent (UnpackedFloat.ofScientific .binary64 digits exponent) ↔
      overflow ≤ digits * 10 ^ exponent := by
  have power : (2 : Int) ^ Format.binary64.exponentBits = 2048 := by norm_num
  rw [UnpackedFloat.ofScientific, power]
  split
  next none =>
    rw [none, Nat.cast_zero, zero_mul]
    exact iff_of_false id (by linarith [one_lt_overflow])
  next some =>
    have some' : (1 : ℚ) ≤ digits := by exact_mod_cast Nat.pos_of_ne_zero some
    split
    next large =>
      refine iff_of_true trivial ?_
      calc overflow
        _ ≤ 2 ^ (1024 : Int) := overflow_lt.le
        _ ≤ 2 ^ exponent := zpow_le_zpow_right₀ one_le_two (by omega)
        _ ≤ 10 ^ exponent := zpow_le_zpow_left₀ (by omega) (by norm_num) (by norm_num)
        _ ≤ digits * 10 ^ exponent := le_mul_of_one_le_left (by positivity) some'
    split
    next small =>
      refine iff_of_false id (not_le.mpr ?_)
      have bits : (digits : ℚ) < 10 ^ (-exponent) :=
        calc (digits : ℚ)
          _ < 2 ^ ((digits.log2 + 1 : Nat) : Int) := by exact_mod_cast Nat.lt_log2_self
          _ ≤ 2 ^ (-exponent) := zpow_le_zpow_right₀ one_le_two (by omega)
          _ ≤ 10 ^ (-exponent) := zpow_le_zpow_left₀ (by omega) (by norm_num) (by norm_num)
      calc (digits : ℚ) * 10 ^ exponent
        _ < 10 ^ (-exponent) * 10 ^ exponent := by gcongr
        _ = 1 := by rw [zpow_neg, inv_mul_cancel₀ (by positivity)]
        _ < overflow := one_lt_overflow
    split
    next whole =>
      have size : ((digits <<< Format.binary64.mantissaBits : Nat) : ℚ) *
          2 ^ (-(Format.binary64.mantissaBits : Int)) *
            ((10 ^ exponent.toNat : Nat) * 2 ^ (0 : Int)) =
          digits * 10 ^ exponent := by
        have scale : (10 : ℚ) ^ exponent = 10 ^ exponent.toNat := by
          rw [← zpow_natCast, Int.toNat_of_nonneg whole]
        rw [Nat.shiftLeft_eq, scale, zpow_neg, zpow_natCast, zpow_zero, mul_one]
        push_cast
        field_simp
      rw [exceeds_mul_iff (by decide), size]
    next fraction =>
      have size : (digits : ℚ) * 2 ^ (0 : Int) / ((10 ^ (-exponent).toNat : Nat) * 2 ^ (0 : Int)) =
          digits * 10 ^ exponent := by
        have scale : (10 : ℚ) ^ exponent = (10 ^ (-exponent).toNat)⁻¹ := by
          rw [← zpow_natCast, Int.toNat_of_nonneg (by omega), ← zpow_neg, neg_neg]
        rw [scale, zpow_zero, mul_one, mul_one, Nat.cast_pow, Nat.cast_ofNat, div_eq_mul_inv]
      rw [exceeds_div_iff (by decide), size]

theorem isNaN_ofScientific (digits : Nat) (exponent : Int) :
    (UnpackedFloat.ofScientific .binary64 digits exponent).isNaN = false := by
  rw [UnpackedFloat.ofScientific]
  split
  next => rfl
  split
  next => rfl
  split
  next => rfl
  split
  next => exact isNaN_roundWithAccuracy ..
  next => exact isNaN_roundWithAccuracy ..

theorem isInf_ofModel_pack (value : UnpackedFloat) :
    (Float.ofModel (.pack value)).isInf ↔ Exceeds largestExponent value :=
  isInf_unpack_pack value

theorem isNaN_ofModel_pack (value : UnpackedFloat) :
    (Float.ofModel (.pack value)).isNaN = value.isNaN :=
  isNaN_unpack_pack value

/-- Whether a number is finite, not zero and neither very large nor very small. -/
def isModerate : UnpackedFloat → Bool
  | .finite _ _ exponent _ => -52 ≤ exponent && exponent ≤ 22
  | _ => false

theorem exists_finite_of_isModerate {value : UnpackedFloat} (moderate : isModerate value) :
    ∃ sign mantissa exponent, ∃ positive : 0 < mantissa,
      value = .finite sign mantissa exponent positive ∧ -52 ≤ exponent ∧ exponent ≤ 22 := by
  cases value with
  | finite sign mantissa exponent positive =>
      simp only [isModerate, Bool.and_eq_true, decide_eq_true_eq] at moderate
      exact ⟨sign, mantissa, exponent, positive, rfl, moderate⟩
  | _ => cases moderate

theorem isModerate_powerOfTen :
    Float.exactlyRepresentablePowersOfTen.all fun power => isModerate power.toModel.unpack := by
  decide +kernel

/-- A whole number of 53 bits is stored exactly. -/
theorem not_exceeds_ofNat {count : Nat} (small : count < 2 ^ 53) :
    ¬ Exceeds 0 (UnpackedFloat.ofNat .binary64 count) := by
  rw [UnpackedFloat.ofNat, UnpackedFloat.ofInt, UnpackedFloat.normalize]
  split
  next negative => exact absurd (Int.compare_eq_lt.mp negative) (by omega)
  next => exact id
  next =>
    rw [UnpackedFloat.round, decreaseExponent, Int.toNat_natCast]
    dsimp only
    generalize (0 - Format.binary64.targetExponent _).toNat = shift
    have exact : ((count <<< shift : Nat) : ℚ) = count / 2 ^ (0 - (shift : Int)) := by
      rw [Nat.shiftLeft_eq, zero_sub, zpow_neg, zpow_natCast, div_inv_eq_mul]
      push_cast
      rfl
    have represents := represents_exact (count <<< shift)
    rw [exact] at represents
    have whole : (count : ℚ) + 1 ≤ 2 ^ 53 := by exact_mod_cast small
    rw [exceeds_roundWithAccuracy_iff represents (by omega) (by omega), zpow_zero, mul_one]
    linarith

theorem isNaN_ofNat (count : Nat) : (UnpackedFloat.ofNat .binary64 count).isNaN = false := by
  rw [UnpackedFloat.ofNat, UnpackedFloat.ofInt, UnpackedFloat.normalize]
  split
  next => exact isNaN_roundWithAccuracy ..
  next => rfl
  next => exact isNaN_roundWithAccuracy ..

theorem mul_zpow_lt {mantissa : Nat} (bits : mantissa < 2 ^ 53) {exponent limit : Int}
    (below : exponent ≤ limit) : (mantissa : ℚ) * 2 ^ exponent < 2 ^ 53 * 2 ^ limit := by
  have bits' : (mantissa : ℚ) < 2 ^ 53 := by exact_mod_cast bits
  calc (mantissa : ℚ) * 2 ^ exponent
    _ < 2 ^ 53 * 2 ^ exponent := by gcongr
    _ ≤ 2 ^ 53 * 2 ^ limit := by
      gcongr
      exact one_le_two

section Fast

variable {count : UInt64} (small : count.toNat < 2 ^ 53)

include small

theorem unpack_toFloat :
    (∃ sign, count.toFloat.toModel.unpack = .zero sign) ∨
      ∃ sign mantissa exponent, ∃ positive : 0 < mantissa,
        count.toFloat.toModel.unpack = .finite sign mantissa exponent positive ∧ exponent ≤ 0 := by
  have stored : count.toFloat.toModel.unpack =
      unpack .binary64 (pack .binary64 (.ofNat .binary64 count.toNat)) := rfl
  have within : ¬ Exceeds 0 count.toFloat.toModel.unpack := by
    rw [stored]
    exact fun exceeds => not_exceeds_ofNat small
      (exceeds_of_unpack_pack (by decide) (by decide) exceeds)
  have number : count.toFloat.toModel.unpack.isNaN = false := by
    rw [stored, isNaN_unpack_pack, isNaN_ofNat]
  cases result : count.toFloat.toModel.unpack with
  | infinity sign => exact absurd (by rw [result]; trivial) within
  | notANumber => rw [result] at number; cases number
  | zero sign => exact .inl ⟨sign, rfl⟩
  | finite sign mantissa exponent positive =>
      rw [result] at within
      exact .inr ⟨sign, mantissa, exponent, positive, rfl, Int.not_lt.mp within⟩

variable {power : Float} (moderate : isModerate power.toModel.unpack)

include moderate

theorem not_exceeds_mul :
    ¬ Exceeds largestExponent
        (mul .binary64 count.toFloat.toModel.unpack power.toModel.unpack) ∧
      (mul .binary64 count.toFloat.toModel.unpack power.toModel.unpack).isNaN = false := by
  obtain ⟨sign', mantissa', exponent', positive', second, least, most⟩ :=
    exists_finite_of_isModerate moderate
  have bits' : mantissa' < 2 ^ 53 := mantissa_lt_of_unpack second
  rcases unpack_toFloat small with
    ⟨sign, first⟩ | ⟨sign, mantissa, exponent, positive, first, bound⟩
  · rw [first, second]
    exact ⟨id, rfl⟩
  · have bits : mantissa < 2 ^ 53 := mantissa_lt_of_unpack first
    rw [first, second, exceeds_mul_iff (by rw [largestExponent]; omega), not_le]
    refine ⟨?_, isNaN_roundWithAccuracy ..⟩
    refine lt_overflow_of_le (le_of_lt ?_)
    calc (mantissa : ℚ) * 2 ^ exponent * (mantissa' * 2 ^ exponent')
      _ < 2 ^ 53 * 2 ^ (0 : Int) * (2 ^ 53 * 2 ^ (22 : Int)) :=
        mul_lt_mul'' (mul_zpow_lt bits bound) (mul_zpow_lt bits' most) (by positivity)
          (by positivity)
      _ = 2 ^ 128 := by norm_num

theorem not_exceeds_div :
    ¬ Exceeds largestExponent
        (div .binary64 count.toFloat.toModel.unpack power.toModel.unpack) ∧
      (div .binary64 count.toFloat.toModel.unpack power.toModel.unpack).isNaN = false := by
  obtain ⟨sign', mantissa', exponent', positive', second, least, -⟩ :=
    exists_finite_of_isModerate moderate
  rcases unpack_toFloat small with
    ⟨sign, first⟩ | ⟨sign, mantissa, exponent, positive, first, bound⟩
  · rw [first, second]
    exact ⟨id, rfl⟩
  · have bits : mantissa < 2 ^ 53 := mantissa_lt_of_unpack first
    have divisor : (2 : ℚ) ^ (-52 : Int) ≤ mantissa' * 2 ^ exponent' := by
      have one : (1 : ℚ) ≤ mantissa' := by exact_mod_cast positive'
      exact (zpow_le_zpow_right₀ one_le_two least).trans (le_mul_of_one_le_left (by positivity) one)
    rw [first, second, exceeds_div_iff (by rw [largestExponent]; omega), not_le]
    refine ⟨?_, isNaN_roundWithAccuracy ..⟩
    refine lt_overflow_of_le (le_of_lt ?_)
    calc (mantissa : ℚ) * 2 ^ exponent / (mantissa' * 2 ^ exponent')
      _ < 2 ^ 53 * 2 ^ (0 : Int) / 2 ^ (-52 : Int) :=
        div_lt_div₀ (mul_zpow_lt bits bound) divisor (by positivity) (by positivity)
      _ ≤ 2 ^ 128 := by norm_num

end Fast

theorem size_lt_overflow {digits : Nat} {exponent : Int} (small : digits < 2 ^ 53)
    (few : exponent ≤ 22) : (digits : ℚ) * 10 ^ exponent < overflow := by
  have small' : (digits : ℚ) ≤ 2 ^ 53 := by exact_mod_cast small.le
  refine lt_overflow_of_le ?_
  calc (digits : ℚ) * 10 ^ exponent
    _ ≤ 2 ^ 53 * 10 ^ (22 : Int) := by
      gcongr
      norm_num
    _ ≤ 2 ^ 128 := by norm_num

theorem signed_natAbs (exponent : Int) :
    (if decide (exponent < 0) then Int.negOfNat exponent.natAbs else Int.ofNat exponent.natAbs) =
      exponent := by
  split
  next negative =>
    rw [decide_eq_true_eq] at negative
    rw [Int.negOfNat_eq, Int.ofNat_eq_natCast]
    omega
  next positive =>
    rw [decide_eq_true_eq] at positive
    rw [Int.ofNat_eq_natCast]
    omega

/-- The double for a decimal number is infinite exactly if the number is too large. -/
theorem isInf_ofScientific (digits : Nat) (exponent : Int) :
    ((Float.ofScientific digits (exponent < 0) exponent.natAbs).isInf ↔
      overflow ≤ digits * 10 ^ exponent) ∧
      (Float.ofScientific digits (exponent < 0) exponent.natAbs).isNaN = false := by
  rw [Float.ofScientific]
  split
  -- few digits and a small exponent are far below the limit, whatever is computed from them
  next fast =>
    have whole : (UInt64.ofNat digits).toNat < 2 ^ 53 := by
      rw [UInt64.toNat_ofNat_of_lt' (fast.1.trans (by decide))]
      exact fast.1
    have listed : exponent.natAbs < Float.exactlyRepresentablePowersOfTen.size :=
      Nat.lt_succ_of_le fast.2
    have moderate := Array.all_eq_true_iff_forall_mem.mp isModerate_powerOfTen _
      (Array.getElem_mem listed)
    have small : ¬ overflow ≤ digits * 10 ^ exponent :=
      not_le.mpr (size_lt_overflow fast.1 (by omega))
    dsimp only
    split
    next =>
      obtain ⟨finite, number⟩ := not_exceeds_div whole moderate
      exact ⟨iff_of_false (mt (isInf_ofModel_pack _).mp finite) small,
        (isNaN_ofModel_pack _).trans number⟩
    next =>
      obtain ⟨finite, number⟩ := not_exceeds_mul whole moderate
      exact ⟨iff_of_false (mt (isInf_ofModel_pack _).mp finite) small,
        (isNaN_ofModel_pack _).trans number⟩
  next slow =>
    dsimp only
    rw [signed_natAbs]
    exact ⟨(isInf_ofModel_pack _).trans (exceeds_ofScientific_iff _ _),
      (isNaN_ofModel_pack _).trans (isNaN_ofScientific _ _)⟩

theorem isInf_neg (value : Float) :
    ((-value).isInf ↔ value.isInf) ∧ (-value).isNaN = value.isNaN := by
  constructor
  · exact (isInf_ofModel_pack _).trans (exceeds_neg_iff.trans exceeds_unpack_iff)
  · refine (isNaN_ofModel_pack _).trans ?_
    change value.toModel.unpack.neg.isNaN = value.toModel.unpack.isNaN
    cases value.toModel.unpack <;> rfl

theorem lt_ten_pow_length (number : Nat) : number < 10 ^ (ofNat number).length :=
  (Nat.length_toDigits_le_iff (by decide) Nat.length_toDigits_pos).mp le_rfl

theorem ten_pow_length_le {number : Nat} (nonzero : number ≠ 0) :
    10 ^ ((ofNat number).length - 1) ≤ number := by
  by_cases single : (ofNat number).length - 1 = 0
  · rw [single, pow_zero]
    exact Nat.pos_of_ne_zero nonzero
  · rw [← Nat.not_lt, ← Nat.length_toDigits_le_iff (by decide) (Nat.pos_of_ne_zero single)]
    change ¬ (ofNat number).length ≤ _
    omega

namespace Decimal

/-- The exact size of a decimal numeral. -/
def size (decimal : Decimal) : ℚ := decimal.digits * 10 ^ decimal.exponent

theorem isInf_fixed : infinity.isInf = true ∧ infinity.isNaN = false ∧
    (0 : Float).isInf = false ∧ (0 : Float).isNaN = false := by
  decide +kernel

/-- The nearest double to the size is infinite exactly if the size is too large. -/
theorem isInf_magnitude (decimal : Decimal) :
    (decimal.magnitude.isInf ↔ overflow ≤ decimal.size) ∧ decimal.magnitude.isNaN = false := by
  obtain ⟨infinite, number, finite, number'⟩ := isInf_fixed
  rw [magnitude]
  split
  next none =>
    rw [finite, size, none, Nat.cast_zero, zero_mul]
    exact ⟨iff_of_false Bool.false_ne_true (by linarith [one_lt_overflow]), number'⟩
  next some =>
    dsimp only
    split
    next large =>
      refine ⟨iff_of_true infinite ?_, number⟩
      have huge : 2 ^ 1024 ≤ 10 ^ 309 := by decide +kernel
      have digits : (10 : ℚ) ^ ((ofNat decimal.digits).length - 1) ≤ decimal.digits := by
        exact_mod_cast ten_pow_length_le some
      calc overflow
        _ ≤ 2 ^ 1024 := overflow_lt.le
        _ ≤ 10 ^ (309 : Int) := by exact_mod_cast huge
        _ ≤ 10 ^ (((ofNat decimal.digits).length - 1 : Nat) + decimal.exponent) :=
          zpow_le_zpow_right₀ (by norm_num) (by omega)
        _ = 10 ^ ((ofNat decimal.digits).length - 1) * 10 ^ decimal.exponent := by
          rw [zpow_add₀ (by norm_num), zpow_natCast]
        _ ≤ decimal.size := mul_le_mul_of_nonneg_right digits (by positivity)
    split
    next small =>
      rw [finite]
      refine ⟨iff_of_false Bool.false_ne_true (not_le.mpr ?_), number'⟩
      have digits : (decimal.digits : ℚ) < 10 ^ (ofNat decimal.digits).length := by
        exact_mod_cast lt_ten_pow_length decimal.digits
      calc decimal.size
        _ < 10 ^ (ofNat decimal.digits).length * 10 ^ decimal.exponent :=
          mul_lt_mul_of_pos_right digits (by positivity)
        _ = 10 ^ ((ofNat decimal.digits).length + decimal.exponent) := by
          rw [zpow_add₀ (by norm_num), zpow_natCast]
        _ ≤ 10 ^ (0 : Int) := zpow_le_zpow_right₀ (by norm_num) (by omega)
        _ < overflow := one_lt_overflow
    next => exact isInf_ofScientific decimal.digits decimal.exponent

/-- The double that is nearest to a numeral is infinite exactly if the numeral is too large. -/
theorem isInf_toFloat (decimal : Decimal) :
    (decimal.toFloat.isInf ↔ overflow ≤ decimal.size) ∧ decimal.toFloat.isNaN = false := by
  rw [toFloat]
  split
  next =>
    obtain ⟨infinite, number⟩ := isInf_neg decimal.magnitude
    rw [infinite, number]
    exact isInf_magnitude decimal
  next => exact isInf_magnitude decimal

/-- A row of digits is a decimal numeral without a fraction and an exponent. -/
theorem unsigned?_of_natural? {text : Text} {value : Nat} (read : natural? text = some value)
    (negative : Bool) : unsigned? negative text = some ⟨negative, value, 0⟩ := by
  obtain ⟨nonempty, digits, worth⟩ := natural?_eq_some_iff.mp read
  have whole : text.takeWhile Char.isDigit = text := List.takeWhile_eq_self_iff.mpr digits
  have tail : text.dropWhile Char.isDigit = [] := List.dropWhile_eq_nil_iff.mpr digits
  simp [unsigned?, whole, tail, nonempty, ofDigitChars_eq_placeValue, worth, exponent?]

/-- A whole number is a decimal numeral of its magnitude. -/
theorem ofText?_of_integer? {text : Text} {value : Int} (read : integer? text = some value) :
    ∃ negative, ofText? text = some ⟨negative, value.natAbs, 0⟩ := by
  unfold integer? at read
  split at read
  · obtain ⟨magnitude, digits, rfl⟩ := Option.map_eq_some_iff.mp read
    exact ⟨false, unsigned?_of_natural? digits false⟩
  · obtain ⟨opposite, lifted, rfl⟩ := Option.map_eq_some_iff.mp read
    obtain ⟨magnitude, digits, same⟩ := Option.bind_eq_some_iff.mp lifted
    obtain rfl := Option.some.inj same
    rw [Int.natAbs_neg, Int.natAbs_natCast]
    exact ⟨true, unsigned?_of_natural? digits true⟩
  next plus minus =>
    obtain ⟨magnitude, digits, rfl⟩ := Option.map_eq_some_iff.mp read
    refine ⟨false, ?_⟩
    unfold ofText?
    split
    next rest => exact absurd rfl (plus rest)
    next rest => exact absurd rfl (minus rest)
    next => exact unsigned?_of_natural? digits false

/-- A whole number of 64 bits is not too large. -/
theorem size_lt_overflow_of_int64? {text : Text} {value : Int64} (whole : int64? text = some value)
    {decimal : Decimal} (read : ofText? text = some decimal) : decimal.size < overflow := by
  obtain ⟨number, found, fits⟩ := Option.bind_eq_some_iff.mp whole
  obtain ⟨⟨least, most⟩, -⟩ := Option.ite_none_right_eq_some.mp fits
  obtain ⟨negative, same⟩ := ofText?_of_integer? found
  obtain rfl := Option.some.inj (read.symm.trans same)
  have least : -2 ^ 63 ≤ number := least
  have most : number < 2 ^ 63 := Int.lt_of_le_sub_one most
  have small : number.natAbs ≤ 2 ^ 63 := by omega
  refine lt_overflow_of_le ?_
  calc size ⟨negative, number.natAbs, 0⟩
    _ = (number.natAbs : ℚ) := by rw [size, zpow_zero, mul_one]
    _ ≤ 2 ^ 63 := by exact_mod_cast small
    _ ≤ 2 ^ 128 := by norm_num

end Decimal

end Numeral

end DataCondition
