import DataCondition.Json.Fault
import DataCondition.Numeral.Decimal

/-!
# JSON numbers

A number is read up to its first character that cannot belong to it, and tested against the largest
double.
-/

namespace DataCondition

namespace Json

/-- A number without its sign: digits before the point, digits after it, and the exponent. -/
structure Number where
  whole : Text
  fraction : Text
  exponent : Int

namespace Number

/-- One digit or more; where they are missing the text has ended or holds something else. -/
def digits : Text → Except Fault (Text × Text)
  | [] => .error .truncated
  | char :: rest =>
    if char.isDigit then
      .ok (char :: rest.takeWhile Char.isDigit, rest.dropWhile Char.isDigit)
    else
      .error .malformed

/-- The digits before the point; a zero stands alone. -/
def wholePart : Text → Except Fault (Text × Text)
  | '0' :: rest =>
    if rest.head?.any Char.isDigit then .error .malformed else .ok (['0'], rest)
  | text => digits text

/-- The digits after the point, if there is a point. -/
def fractionPart : Text → Except Fault (Text × Text)
  | '.' :: rest => digits rest
  | text => .ok ([], text)

/-- The digits of an exponent after its optional sign. -/
def signedDigits : Text → Except Fault (Int × Text)
  | '-' :: text => (digits text).map fun (places, rest) => (-Nat.ofDigitChars 10 places 0, rest)
  | '+' :: text => (digits text).map fun (places, rest) => (Nat.ofDigitChars 10 places 0, rest)
  | text => (digits text).map fun (places, rest) => (Nat.ofDigitChars 10 places 0, rest)

/-- The exponent, if there is one. -/
def exponentPart : Text → Except Fault (Int × Text)
  | 'e' :: rest => signedDigits rest
  | 'E' :: rest => signedDigits rest
  | text => .ok (0, text)

/-- A number without its sign, and the text after it. -/
def unsigned (text : Text) : Except Fault (Number × Text) := do
  let (whole, rest) ← wholePart text
  let (fraction, rest) ← fractionPart rest
  let (exponent, rest) ← exponentPart rest
  return (⟨whole, fraction, exponent⟩, rest)

/-- A number with its sign, and the text after it. -/
def read : Text → Except Fault (Number × Text)
  | '-' :: rest => unsigned rest
  | text => unsigned text

/-- Gathers digits into a significand of 64 bits; counts the digits from the first without room. -/
def gather (significand : Nat) : Text → Nat × Nat
  | [] => (significand, 0)
  | char :: rest =>
    let next := significand * 10 + (char.toNat - 48)
    if next < UInt64.size then gather next rest else (significand, (char :: rest).length)

/--
Whether a number exceeds every double. Digits of the whole part that find no room in the significand
raise the exponent, those of the fraction are dropped. The significand is rounded to a double before
the power of ten is applied, and the product rounds once more.
-/
def isOversized (number : Number) : Bool :=
  let (whole, raised) := gather 0 number.whole
  let (significand, dropped) := gather whole number.fraction
  let exponent := number.exponent + raised + dropped - number.fraction.length
  significand ≠ 0 && 0 ≤ exponent &&
    (308 < exponent ||
      (significand.toUInt64.toFloat * Float.ofScientific 1 false exponent.toNat).isInf)

/-! Reading a part of a number leaves a shorter text, or at least no longer one. -/

theorem length_of_digits {text places rest : Text} (read : digits text = .ok (places, rest)) :
    rest.length < text.length := by
  cases text with
  | nil => simp [digits] at read
  | cons char tail =>
      simp only [digits] at read
      split at read
      · obtain ⟨rfl, rfl⟩ := by simpa using read
        exact Nat.lt_succ_of_le (List.dropWhile_sublist _).length_le
      · simp at read

theorem length_of_wholePart {text places rest : Text} (read : wholePart text = .ok (places, rest)) :
    rest.length < text.length := by
  unfold wholePart at read
  split at read
  · split at read
    · simp at read
    · obtain ⟨rfl, rfl⟩ := by simpa using read
      simp
  · exact length_of_digits read

theorem length_of_fractionPart {text places rest : Text}
    (read : fractionPart text = .ok (places, rest)) : rest.length ≤ text.length := by
  unfold fractionPart at read
  split at read
  · have shorter := length_of_digits read
    simp only [List.length_cons]
    omega
  · obtain ⟨rfl, rfl⟩ := by simpa using read
    exact Nat.le_refl _

private theorem exists_of_map_ok {α β : Type} {result : Except Fault α} {change : α → β} {value : β}
    (mapped : result.map change = .ok value) :
    ∃ found, result = .ok found ∧ change found = value := by
  cases result with
  | error fault => simp [Except.map] at mapped
  | ok found => exact ⟨found, rfl, by simpa [Except.map] using mapped⟩

private theorem exists_of_bind_ok {α β : Type} {result : Except Fault α} {next : α → Except Fault β}
    {value : β} (bound : result >>= next = .ok value) :
    ∃ found, result = .ok found ∧ next found = .ok value := by
  cases result with
  | error fault => simp [bind, Except.bind] at bound
  | ok found => exact ⟨found, rfl, bound⟩

theorem length_of_signedDigits {text rest : Text} {size : Int}
    (read : signedDigits text = .ok (size, rest)) : rest.length < text.length := by
  unfold signedDigits at read
  split at read
  all_goals
    obtain ⟨⟨places, tail⟩, found, equation⟩ := exists_of_map_ok read
    obtain ⟨-, rfl⟩ := by simpa using equation
    have shorter := length_of_digits found
    first
      | exact shorter
      | exact Nat.lt_succ_of_lt shorter

theorem length_of_exponentPart {text rest : Text} {size : Int}
    (read : exponentPart text = .ok (size, rest)) : rest.length ≤ text.length := by
  unfold exponentPart at read
  split at read
  case h_3 =>
    obtain ⟨-, rfl⟩ := by simpa using read
    exact Nat.le_refl _
  all_goals exact Nat.le_of_lt (Nat.lt_succ_of_lt (length_of_signedDigits read))

theorem length_of_unsigned {text rest : Text} {number : Number}
    (read : unsigned text = .ok (number, rest)) : rest.length < text.length := by
  obtain ⟨⟨whole, afterWhole⟩, wholeRead, read⟩ := exists_of_bind_ok read
  obtain ⟨⟨fraction, afterFraction⟩, fractionRead, read⟩ := exists_of_bind_ok read
  obtain ⟨⟨exponent, afterExponent⟩, exponentRead, read⟩ := exists_of_bind_ok read
  obtain ⟨-, rfl⟩ := by simpa [pure, Except.pure] using read
  have first := length_of_wholePart wholeRead
  have second := length_of_fractionPart fractionRead
  have third := length_of_exponentPart exponentRead
  omega

theorem length_of_read {text rest : Text} {number : Number}
    (found : read text = .ok (number, rest)) : rest.length < text.length := by
  unfold read at found
  split at found
  · exact Nat.lt_succ_of_lt (length_of_unsigned found)
  · exact length_of_unsigned found

end Number

end Json

end DataCondition
