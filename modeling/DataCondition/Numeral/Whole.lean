import DataCondition.Text.Blank

/-!
# Whole numbers in decimal digits

Whole numbers are read from and written in ASCII digits; the fixed-width readers refuse what does
not fit.
-/

namespace DataCondition

namespace Numeral

/-- The number that one or more digits stand for. -/
def natural? (text : Text) : Option Nat :=
  if !text.isEmpty && text.all Char.isDigit then some (Nat.ofDigitChars 10 text 0) else none

/-- Digits after an optional sign. -/
def integer? : Text → Option Int
  | '+' :: digits => (natural? digits).map Int.ofNat
  | '-' :: digits => (natural? digits).map fun magnitude => -(magnitude : Int)
  | digits => (natural? digits).map Int.ofNat

/-- A signed whole number of 64 bits. -/
def int64? (text : Text) : Option Int64 := do
  let value ← integer? text
  if Int64.minValue.toInt ≤ value ∧ value ≤ Int64.maxValue.toInt then some (Int64.ofInt value)
  else none

/-- An unsigned whole number of 64 bits; only a plus sign may stand before it. -/
def uint64? (text : Text) : Option UInt64 := do
  let value ← natural? (if text.head? = some '+' then text.tail else text)
  if value < UInt64.size then some (UInt64.ofNat value) else none

/-- The digits of a whole number, without leading zeros. -/
def ofNat (value : Nat) : Text := Nat.toDigits 10 value

/-- The digits of a whole number after a minus sign if it is negative. -/
def ofInt (value : Int) : Text :=
  if value < 0 then '-' :: ofNat value.natAbs else ofNat value.natAbs

theorem isDigit_of_mem_ofNat {value : Nat} {char : Char} (member : char ∈ ofNat value) :
    char.isDigit :=
  Nat.isDigit_of_mem_toDigits (by decide) (by decide) member

/-- The number whose digits are read is the number whose digits were written. -/
theorem natural?_ofNat (value : Nat) : natural? (ofNat value) = some value := by
  have digits : ∀ char ∈ Nat.toDigits 10 value, char.isDigit = true :=
    fun _ => isDigit_of_mem_ofNat
  simpa [natural?, ofNat, Nat.ofDigitChars_ten_toDigits] using digits

/-- Numbers with the same digits are the same. -/
theorem ofNat_inj {value value' : Nat} (same : ofNat value = ofNat value') : value = value' := by
  have read := natural?_ofNat value
  rw [same, natural?_ofNat] at read
  exact (Option.some.inj read).symm

end Numeral

end DataCondition
