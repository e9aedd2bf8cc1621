import Mathlib

/-!
# Rounding to 53 bits

A number is rounded from its leading bits, a round bit and a sticky bit. These tell enough of the
number to say when its exponent grows beyond a limit: from half a last place below the next power
of two on.
-/

namespace DataCondition

namespace Numeral

open Float.Model Float.Model.UnpackedFloat

/-- What the bit after the last place is worth, in last places. -/
def half (bit : Bool) : ℚ := if bit then 1 / 2 else 0

theorem half_nonneg (bit : Bool) : 0 ≤ half bit := by
  cases bit <;> norm_num [half]

theorem half_le (bit : Bool) : half bit ≤ 1 / 2 := by
  cases bit <;> norm_num [half]

theorem half_eq_zero_iff (bit : Bool) : half bit = 0 ↔ bit = false := by
  cases bit <;> norm_num [half]

/-- A number has these bits up to the one after the last place; the sticky bit tells of more. -/
def Represents (bits : ExtendedMantissa) (size : ℚ) : Prop :=
  ∃ rest, size = bits.mantissa + half bits.roundBit + rest ∧ 0 ≤ rest ∧ rest < 1 / 2 ∧
    (rest = 0 ↔ bits.stickyBit = false)

theorem represents_exact (mantissa : Nat) :
    Represents (.ofMantissaAndAccuracy mantissa .exact) mantissa :=
  ⟨0, by simp [ExtendedMantissa.ofMantissaAndAccuracy, half], le_refl _, by norm_num,
    by simp [ExtendedMantissa.ofMantissaAndAccuracy]⟩

/-- A fraction of a last place is compared with half of it. -/
theorem represents_fraction (whole : Nat) {left divisor : Nat} (less : left < divisor) :
    Represents (.ofMantissaAndAccuracy whole (accuracyOfFraction left divisor))
      (whole + left / divisor) := by
  have positive : (0 : ℚ) < divisor := by exact_mod_cast Nat.zero_lt_of_lt less
  have part : (left : ℚ) / divisor < 1 := by
    rw [div_lt_one₀ positive]
    exact_mod_cast less
  rw [accuracyOfFraction]
  split
  next none =>
    rw [none, Nat.cast_zero, zero_div, add_zero]
    exact represents_exact whole
  next some =>
    cases order : compare (2 * left) divisor with
    | lt =>
        have lower : (left : ℚ) / divisor < 1 / 2 := by
          have doubled : (2 * left : ℚ) < divisor := by exact_mod_cast Nat.compare_eq_lt.mp order
          rw [div_lt_iff₀ positive]
          linarith
        have nonzero : (0 : ℚ) < left / divisor :=
          div_pos (by exact_mod_cast Nat.pos_of_ne_zero some) positive
        exact ⟨left / divisor, by simp [ExtendedMantissa.ofMantissaAndAccuracy, half],
          nonzero.le, lower, iff_of_false nonzero.ne' Bool.noConfusion⟩
    | eq =>
        have equal : (left : ℚ) / divisor = 1 / 2 := by
          have doubled : (2 * left : ℚ) = divisor := by exact_mod_cast Nat.compare_eq_eq.mp order
          rw [div_eq_iff positive.ne']
          linarith
        exact ⟨0, by simp [ExtendedMantissa.ofMantissaAndAccuracy, half, equal],
          le_refl _, by norm_num, iff_of_true rfl rfl⟩
    | gt =>
        have higher : 1 / 2 < (left : ℚ) / divisor := by
          have doubled : (divisor : ℚ) < 2 * left := by exact_mod_cast Nat.compare_eq_gt.mp order
          rw [lt_div_iff₀ positive]
          linarith
        refine ⟨left / divisor - 1 / 2, ?_, by linarith, by linarith,
          iff_of_false (by linarith) Bool.noConfusion⟩
        simp [ExtendedMantissa.ofMantissaAndAccuracy, half]

/-- The bits of a quotient and what is left of it. -/
theorem represents_quotient (number : Nat) {divisor : Nat} (positive : 0 < divisor) :
    Represents (.ofMantissaAndAccuracy (number / divisor)
      (accuracyOfFraction (number % divisor) divisor)) (number / divisor) := by
  have parts : (number : ℚ) / divisor =
      ((number / divisor : Nat) : ℚ) + ((number % divisor : Nat) : ℚ) / divisor := by
    have positive' : (divisor : ℚ) ≠ 0 := by exact_mod_cast positive.ne'
    rw [div_eq_iff positive', add_mul, div_mul_cancel₀ _ positive']
    exact_mod_cast (Nat.div_add_mod' number divisor).symm
  rw [parts]
  exact represents_fraction _ (Nat.mod_lt _ positive)

namespace Represents

variable {bits : ExtendedMantissa} {size : ℚ} (represents : Represents bits size)

include represents

theorem mantissa_le : bits.mantissa ≤ size := by
  obtain ⟨rest, rfl, low, -, -⟩ := represents
  linarith [half_nonneg bits.roundBit]

theorem lt_mantissa_add_one : size < bits.mantissa + 1 := by
  obtain ⟨rest, rfl, -, high, -⟩ := represents
  linarith [half_le bits.roundBit]

/-- The bit that is shifted out becomes the round bit. -/
theorem shiftRightOne : Represents bits.shiftRightOne (size / 2) := by
  obtain ⟨rest, rfl, low, high, sticky⟩ := represents
  have positive := half_nonneg bits.roundBit
  have small := half_le bits.roundBit
  refine ⟨(half bits.roundBit + rest) / 2, ?_, by linarith, by linarith, ?_⟩
  · have parts : (bits.mantissa : ℚ) = 2 * ((bits.mantissa / 2 : Nat) : ℚ) +
        ((bits.mantissa % 2 : Nat) : ℚ) := by
      exact_mod_cast (Nat.div_add_mod bits.mantissa 2).symm
    have bit : half (bits.mantissa % 2 != 0) = ((bits.mantissa % 2 : Nat) : ℚ) / 2 := by
      rcases Nat.mod_two_eq_zero_or_one bits.mantissa with even | odd
      · simp [even, half]
      · simp [odd, half]
    change _ = ((bits.mantissa / 2 : Nat) : ℚ) + half (bits.mantissa % 2 != 0) + _
    rw [bit, parts]
    ring
  · change _ ↔ (bits.roundBit || bits.stickyBit) = false
    rw [Bool.or_eq_false_iff, ← sticky]
    rw [div_eq_zero_iff, or_iff_left (by norm_num), add_eq_zero_iff_of_nonneg positive low,
      half_eq_zero_iff]

theorem shiftRight (count : Nat) : Represents (bits >>> count) (size / 2 ^ count) := by
  change Represents (count.repeat ExtendedMantissa.shiftRightOne bits) _
  induction count with
  | zero => simpa [Nat.repeat] using represents
  | succ count induction =>
      rw [pow_succ, ← div_div]
      exact induction.shiftRightOne

end Represents

theorem mantissa_le_roundedMantissa (bits : ExtendedMantissa) :
    bits.mantissa ≤ bits.roundedMantissa := by
  obtain ⟨mantissa, _ | _, _ | _⟩ := bits <;>
    simp [ExtendedMantissa.roundedMantissa, ExtendedMantissa.accuracy, Accuracy.roundToNearestEven]

theorem roundedMantissa_le (bits : ExtendedMantissa) :
    bits.roundedMantissa ≤ bits.mantissa + 1 := by
  obtain ⟨mantissa, _ | _, _ | _⟩ := bits <;>
    simp [ExtendedMantissa.roundedMantissa, ExtendedMantissa.accuracy, Accuracy.roundToNearestEven]
  omega

/-- The rounded mantissa reaches an even number from half a last place below it on. -/
theorem Represents.le_roundedMantissa_iff {bits : ExtendedMantissa} {size : ℚ}
    (represents : Represents bits size) {goal : Nat} (even : Even goal) :
    goal ≤ bits.roundedMantissa ↔ goal - 1 / 2 ≤ size := by
  have least := mantissa_le_roundedMantissa bits
  have most := roundedMantissa_le bits
  have above := represents.mantissa_le
  have below := represents.lt_mantissa_add_one
  rcases Nat.lt_trichotomy goal (bits.mantissa + 1) with lower | same | higher
  · have within : (goal : ℚ) ≤ bits.mantissa := by exact_mod_cast Nat.lt_succ_iff.mp lower
    exact iff_of_true (by omega) (by linarith)
  · -- the mantissa is odd, so that a tie is rounded up
    obtain ⟨rest, rfl, low, high, -⟩ := represents
    obtain ⟨mantissa, round, sticky⟩ := bits
    obtain ⟨count, twice⟩ := even
    have odd : mantissa % 2 = 1 := by
      dsimp only at same
      omega
    subst same
    cases round with
    | false =>
        refine iff_of_false ?_ ?_
        · cases sticky <;> simp [ExtendedMantissa.roundedMantissa, ExtendedMantissa.accuracy,
            Accuracy.roundToNearestEven]
        · simp only [half, Bool.false_eq_true, if_false, Nat.cast_add, Nat.cast_one]
          linarith
    | true =>
        refine iff_of_true ?_ ?_
        · cases sticky <;> simp [ExtendedMantissa.roundedMantissa, ExtendedMantissa.accuracy,
            Accuracy.roundToNearestEven, odd]
        · simp only [half, if_true, Nat.cast_add, Nat.cast_one]
          linarith
  · have beyond : (bits.mantissa : ℚ) + 2 ≤ goal := by exact_mod_cast higher
    exact iff_of_false (by omega) (by linarith)

theorem mantissa_ofMantissaAndAccuracy (mantissa : Nat) (accuracy : Accuracy) :
    (ExtendedMantissa.ofMantissaAndAccuracy mantissa accuracy).mantissa = mantissa := by
  rcases accuracy with _ | (_ | _ | _) <;> rfl

section Shift

variable {mantissa : Nat} {exponent : Int} {accuracy : Accuracy} {size : ℚ}

/-- The exponent only grows, to make room for 53 bits and to reach that of the smallest double. -/
theorem shiftToTargetExponent_snd :
    (shiftToTargetExponent .binary64 mantissa exponent accuracy).2 =
      max exponent (max (mantissa.log2 + exponent - 52) (-1074)) := by
  have target : Format.binary64.targetExponent (totalExponent mantissa exponent) =
      max (mantissa.log2 + exponent - 52) (-1074) := by
    simp only [Format.targetExponent, Format.minExponent, Format.mantissaBits, totalExponent]
    norm_num
    omega
  rw [shiftToTargetExponent, target, shiftToExponent]
  dsimp only
  omega

variable (represents :
  Represents (.ofMantissaAndAccuracy mantissa accuracy) (size / 2 ^ exponent))

include represents

/-- Shifting keeps the number that is represented. -/
theorem Represents.shiftToTargetExponent :
    Represents (shiftToTargetExponent .binary64 mantissa exponent accuracy).1
      (size / 2 ^ (shiftToTargetExponent .binary64 mantissa exponent accuracy).2) := by
  rw [UnpackedFloat.shiftToTargetExponent, shiftToExponent]
  dsimp only
  rw [zpow_add₀ two_ne_zero, zpow_natCast, ← div_div]
  exact represents.shiftRight _

theorem size_lt : size < 2 ^ (mantissa.log2 + 1 + exponent) := by
  have below := represents.lt_mantissa_add_one
  rw [mantissa_ofMantissaAndAccuracy, div_lt_iff₀ (by positivity)] at below
  have bits : (mantissa : ℚ) + 1 ≤ 2 ^ (mantissa.log2 + 1) := by
    exact_mod_cast Nat.lt_log2_self
  calc size
    _ < (mantissa + 1) * 2 ^ exponent := below
    _ ≤ 2 ^ (mantissa.log2 + 1) * 2 ^ exponent := by gcongr
    _ = 2 ^ (mantissa.log2 + 1 + exponent) := by
      rw [zpow_add₀ two_ne_zero]
      norm_cast

theorem le_size (positive : mantissa ≠ 0) : 2 ^ (mantissa.log2 + exponent) ≤ size := by
  have above := represents.mantissa_le
  rw [mantissa_ofMantissaAndAccuracy, le_div_iff₀ (by positivity)] at above
  have bits : (2 : ℚ) ^ mantissa.log2 ≤ mantissa := by
    exact_mod_cast Nat.log2_self_le positive
  calc (2 : ℚ) ^ (mantissa.log2 + exponent)
    _ = 2 ^ mantissa.log2 * 2 ^ exponent := by
      rw [zpow_add₀ two_ne_zero]
      norm_cast
    _ ≤ mantissa * 2 ^ exponent := by gcongr
    _ ≤ size := above

/-- At most 53 bits are left of the mantissa. -/
theorem mantissa_shift_lt :
    (shiftToTargetExponent .binary64 mantissa exponent accuracy).1.mantissa < 2 ^ 53 := by
  have within := represents.shiftToTargetExponent.mantissa_le
  have room : mantissa.log2 + 1 + exponent ≤
      53 + (shiftToTargetExponent .binary64 mantissa exponent accuracy).2 := by
    rw [shiftToTargetExponent_snd]
    omega
  generalize shiftToTargetExponent .binary64 mantissa exponent accuracy = shifted at within room ⊢
  rw [le_div_iff₀ (by positivity)] at within
  have small : (shifted.1.mantissa : ℚ) * 2 ^ shifted.2 < 2 ^ 53 * 2 ^ shifted.2 :=
    calc (shifted.1.mantissa : ℚ) * 2 ^ shifted.2
      _ ≤ size := within
      _ < 2 ^ (mantissa.log2 + 1 + exponent) := size_lt represents
      _ ≤ 2 ^ (53 + shifted.2) := zpow_le_zpow_right₀ one_le_two room
      _ = 2 ^ 53 * 2 ^ shifted.2 := by
        rw [zpow_add₀ two_ne_zero]
        norm_cast
  exact_mod_cast lt_of_mul_lt_mul_right small (by positivity)

end Shift

/-- The exponent that a rounded mantissa has in the end: it is one more if there is a carry. -/
def carried (mantissa : Nat) (exponent : Int) : Int :=
  if mantissa = 2 ^ 53 then exponent + 1 else exponent

theorem shiftToTargetExponent_carried {mantissa : Nat} {exponent : Int} (nonzero : mantissa ≠ 0)
    (small : mantissa ≤ 2 ^ 53) (least : -1074 ≤ exponent) :
    (shiftToTargetExponent .binary64 mantissa exponent .exact).2 = carried mantissa exponent := by
  rw [shiftToTargetExponent_snd, carried]
  split
  next carry =>
    rw [carry, Nat.log2_two_pow]
    omega
  next same =>
    have bits : mantissa.log2 < 53 := (Nat.log2_lt nonzero).mpr (by omega)
    omega

theorem represents_exact_mul (mantissa : Nat) (exponent : Int) :
    Represents (.ofMantissaAndAccuracy mantissa .exact)
      (mantissa * 2 ^ exponent / 2 ^ exponent) := by
  rw [mul_div_cancel_right₀ _ (by positivity)]
  exact represents_exact mantissa

/-- Nothing but zero is shifted to zero after rounding. -/
theorem mantissa_carried_eq_zero_iff {mantissa : Nat} {exponent : Int} (small : mantissa ≤ 2 ^ 53)
    (least : -1074 ≤ exponent) :
    (shiftToTargetExponent .binary64 mantissa exponent .exact).1.mantissa = 0 ↔ mantissa = 0 := by
  have represents := represents_exact_mul mantissa exponent
  constructor
  · intro lost
    by_contra nonzero
    have below := represents.shiftToTargetExponent.lt_mantissa_add_one
    rw [shiftToTargetExponent_carried nonzero small least, div_lt_iff₀ (by positivity),
      lost] at below
    have room : carried mantissa exponent ≤ mantissa.log2 + exponent := by
      rw [carried]
      split
      next carry =>
        rw [carry, Nat.log2_two_pow]
        omega
      next => omega
    have above := (zpow_le_zpow_right₀ one_le_two room).trans (le_size represents nonzero)
    norm_num at below
    linarith
  · rintro rfl
    have above := represents.shiftToTargetExponent.mantissa_le
    rw [Nat.cast_zero, zero_mul, zero_div] at above
    exact_mod_cast le_antisymm above (Nat.cast_nonneg _)

/-- Whether a number is infinite or has an exponent beyond the limit. -/
def Exceeds (limit : Int) : UnpackedFloat → Prop
  | .infinity _ => True
  | .finite _ _ exponent _ => limit < exponent
  | _ => False

theorem two_mul_zpow_le {lower upper : Int} (less : lower < upper) :
    2 * (2 : ℚ) ^ lower ≤ 2 ^ upper := by
  rw [← zpow_one_add₀ two_ne_zero]
  exact zpow_le_zpow_right₀ one_le_two (by omega)

section Round

variable {sign : Sign} {mantissa : Nat} {exponent limit : Int} {accuracy : Accuracy} {size : ℚ}
  (represents : Represents (.ofMantissaAndAccuracy mantissa accuracy) (size / 2 ^ exponent))

include represents

/-- The exponent of the result is that of the rounded mantissa with its carry. -/
theorem exceeds_roundWithAccuracy {bits : ExtendedMantissa} {top : Int}
    (shifted : shiftToTargetExponent .binary64 mantissa exponent accuracy = (bits, top)) :
    Exceeds limit (roundWithAccuracy .binary64 sign mantissa exponent accuracy) ↔
      bits.roundedMantissa ≠ 0 ∧ limit < carried bits.roundedMantissa top := by
  have small : bits.roundedMantissa ≤ 2 ^ 53 := by
    have few := mantissa_shift_lt represents
    rw [shifted] at few
    exact (roundedMantissa_le _).trans few
  have least : -1074 ≤ top := by
    have grown := @shiftToTargetExponent_snd mantissa exponent accuracy
    rw [shifted] at grown
    omega
  rw [roundWithAccuracy, shifted]
  dsimp only
  by_cases zero : bits.roundedMantissa = 0
  · rw [dif_pos ((mantissa_carried_eq_zero_iff small least).mpr zero)]
    exact iff_of_false id fun exceeds => exceeds.1 zero
  · rw [dif_neg (mt (mantissa_carried_eq_zero_iff small least).mp zero), Exceeds,
      shiftToTargetExponent_carried zero small least]
    exact (and_iff_right zero).symm

/-- Where the exponent has grown beyond the limit, the number fills 53 bits. -/
theorem le_size_of_lt_top (least : -1074 ≤ limit) (below : exponent ≤ limit)
    (high : limit < (shiftToTargetExponent .binary64 mantissa exponent accuracy).2) :
    2 ^ 52 * 2 ^ (shiftToTargetExponent .binary64 mantissa exponent accuracy).2 ≤ size := by
  rw [shiftToTargetExponent_snd] at high ⊢
  have nonzero : mantissa ≠ 0 := by
    rintro rfl
    rw [Nat.log2_zero] at high
    omega
  have exact : max exponent (max (mantissa.log2 + exponent - 52) (-1074)) =
      mantissa.log2 + exponent - 52 := by omega
  calc (2 : ℚ) ^ 52 * 2 ^ max exponent (max (mantissa.log2 + exponent - 52) (-1074))
    _ = 2 ^ (mantissa.log2 + exponent) := by
      rw [exact, ← zpow_natCast, ← zpow_add₀ two_ne_zero]
      congr 1
      push_cast
      omega
    _ ≤ size := le_size represents nonzero

/--
A number is rounded to one with an exponent beyond the limit exactly from half a last place below
the next power of two on.
-/
theorem exceeds_roundWithAccuracy_iff (least : -1074 ≤ limit) (below : exponent ≤ limit) :
    Exceeds limit (roundWithAccuracy .binary64 sign mantissa exponent accuracy) ↔
      (2 ^ 53 - 1 / 2) * 2 ^ limit ≤ size := by
  have grown := le_size_of_lt_top represents least below
  have few := mantissa_shift_lt represents
  have kept := represents.shiftToTargetExponent
  obtain ⟨⟨bits, top⟩, shifted⟩ : ∃ shifted,
      shiftToTargetExponent .binary64 mantissa exponent accuracy = shifted := ⟨_, rfl⟩
  rw [exceeds_roundWithAccuracy represents shifted, carried]
  rw [shifted] at grown few kept
  dsimp only at grown few kept
  have place : (0 : ℚ) < 2 ^ top := by positivity
  have inside := kept.lt_mantissa_add_one
  rw [div_lt_iff₀ place] at inside
  have first := mantissa_le_roundedMantissa bits
  have last := roundedMantissa_le bits
  rcases lt_trichotomy limit top with high | rfl | low
  · -- the number is too large even before it is rounded
    have large := grown high
    have double := two_mul_zpow_le high
    have nonzero : bits.mantissa ≠ 0 := by
      intro zero
      rw [zero, Nat.cast_zero, zero_add, one_mul] at inside
      linarith
    refine iff_of_true ⟨by omega, by split <;> omega⟩ ?_
    have place' : (0 : ℚ) < 2 ^ limit := by positivity
    linarith
  · -- the number is too large if there is a carry
    have reaches := @Represents.le_roundedMantissa_iff bits _ kept (2 ^ 53) (by decide)
    rw [le_div_iff₀ place, Nat.cast_pow, Nat.cast_ofNat] at reaches
    rw [← reaches]
    split <;> omega
  · -- the number is too small even with a carry
    have double := two_mul_zpow_le low
    have full : ((bits.mantissa : ℚ) + 1) * 2 ^ top ≤ 2 ^ 53 * 2 ^ top := by
      gcongr
      exact_mod_cast few
    refine iff_of_false ?_ (by linarith)
    rintro ⟨-, beyond⟩
    split at beyond <;> omega

end Round

end Numeral

end DataCondition
