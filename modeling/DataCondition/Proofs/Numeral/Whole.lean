import Mathlib.Algebra.Group.Nat.Defs
import DataCondition.Numeral.Whole

/-!
# Which texts are whole numbers

A row of digits stands for the sum of what each digit is worth at its place. The readers of 64 bits
take all numerals of the numbers that fit, and what is written is read back.
-/

namespace DataCondition

namespace Numeral

/-- The sum of what the digits are worth at their places. -/
def placeValue : Text → Nat
  | [] => 0
  | digit :: rest => (digit.toNat - '0'.toNat) * 10 ^ rest.length + placeValue rest

theorem ofDigitChars_eq_placeValue (text : Text) :
    Nat.ofDigitChars 10 text 0 = placeValue text := by
  induction text with
  | nil => rfl
  | cons digit rest induction =>
      rw [Nat.ofDigitChars_cons, Nat.ofDigitChars_eq_ofDigitChars_zero, induction, placeValue,
        Nat.mul_zero, Nat.zero_add, Nat.mul_comm]

/-- A numeral of a number: one or more digits that are worth it. -/
structure IsNumeral (text : Text) (value : Nat) : Prop where
  nonempty : text ≠ []
  digits : ∀ char ∈ text, char.isDigit
  worth : placeValue text = value

theorem natural?_eq_some_iff {text : Text} {value : Nat} :
    natural? text = some value ↔ IsNumeral text value := by
  have shape : natural? text = some value ↔
      (text ≠ [] ∧ ∀ char ∈ text, char.isDigit) ∧ placeValue text = value := by
    simp [natural?, ofDigitChars_eq_placeValue]
  rw [shape]
  constructor
  · rintro ⟨⟨nonempty, digits⟩, worth⟩
    exact ⟨nonempty, digits, worth⟩
  · rintro ⟨nonempty, digits, worth⟩
    exact ⟨⟨nonempty, digits⟩, worth⟩

theorem IsNumeral.head?_ne {text : Text} {value : Nat} (numeral : IsNumeral text value)
    (sign : Char) (noDigit : sign.isDigit = false) : text.head? ≠ some sign := by
  intro first
  have digit := numeral.digits sign (List.mem_of_mem_head? first)
  simp [noDigit] at digit

/-- A number that is written is read back. -/
theorem integer?_ofInt (value : Int) : integer? (ofInt value) = some value := by
  have digits : IsNumeral (ofNat value.natAbs) value.natAbs :=
    natural?_eq_some_iff.mp (natural?_ofNat value.natAbs)
  unfold ofInt
  split
  next negative =>
    have opposite : (-(value.natAbs : Int)) = value := by omega
    rw [integer?, natural?_ofNat]
    exact congrArg some opposite
  next positive =>
    have plain : integer? (ofNat value.natAbs) =
        (natural? (ofNat value.natAbs)).map Int.ofNat := by
      unfold integer?
      split
      next shape => exact absurd (by rw [shape]; rfl) (digits.head?_ne '+' rfl)
      next shape => exact absurd (by rw [shape]; rfl) (digits.head?_ne '-' rfl)
      next => rfl
    rw [plain, natural?_ofNat, Option.map_some, Int.ofNat_eq_natCast,
      Int.natAbs_of_nonneg (Int.not_lt.mp positive)]

theorem int64?_ofInt (value : Int64) : int64? (ofInt value.toInt) = some value := by
  have fits : Int64.minValue.toInt ≤ value.toInt ∧ value.toInt ≤ Int64.maxValue.toInt :=
    ⟨value.minValue_le_toInt, value.toInt_le⟩
  rw [int64?, integer?_ofInt, Option.bind_eq_bind, Option.bind_some, if_pos fits,
    Int64.ofInt_toInt]

end Numeral

end DataCondition
