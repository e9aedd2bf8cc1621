import DataCondition.Proofs.Atom.Comparison
import DataCondition.Proofs.Atom.Exact
import DataCondition.Proofs.Numeral.Overflow

/-!
# Which atoms hold infinite numbers

A decimal numeral is read as a number, but as an infinite one if it is too large. The numerals of an
atom are those of the texts that its literals are read from.
-/

namespace DataCondition

open Text (cut trim)

namespace Scalar

theorem ofText_eq_real {text : Text} {value : Float} (read : ofText text = .real value) :
    ∃ decimal, Numeral.Decimal.ofText? (trim text) = some decimal ∧ decimal.toFloat = value := by
  simp only [ofText] at read
  split at read
  next => cases read
  next decimal _ found => exact ⟨decimal, found, Scalar.real.inj read⟩
  split at read
  next => cases read
  split at read <;> cases read

/-- A numeral is read as its nearest double, if not as a whole number, which is never too large. -/
theorem ofText_of_decimal {text : Text} {decimal : Numeral.Decimal}
    (found : Numeral.Decimal.ofText? (trim text) = some decimal) :
    ofText text = .real decimal.toFloat ∨ decimal.size < Numeral.overflow := by
  cases whole : Numeral.int64? (trim text) with
  | some value => exact .inr (Numeral.Decimal.size_lt_overflow_of_int64? whole found)
  | none => exact .inl (by simp only [ofText, whole, found])

/-- A literal is an infinite number exactly if it is a numeral that is too large. -/
theorem ofText_isInf_iff {text : Text} :
    (∃ value, ofText text = .real value ∧ value.isInf) ↔
      ∃ decimal, Numeral.Decimal.ofText? (trim text) = some decimal ∧
        Numeral.overflow ≤ decimal.size := by
  constructor
  · rintro ⟨value, read, infinite⟩
    obtain ⟨decimal, found, rfl⟩ := ofText_eq_real read
    exact ⟨decimal, found, decimal.isInf_toFloat.1.mp infinite⟩
  · rintro ⟨decimal, found, large⟩
    rcases ofText_of_decimal found with read | small
    · exact ⟨decimal.toFloat, read, decimal.isInf_toFloat.1.mpr large⟩
    · exact absurd large (not_le.mpr small)

end Scalar

namespace Atom

/-- The texts of the literals: what follows the symbol, or the entries of the list. -/
def literalTexts (text : Text) (atom : Atom) : List Text :=
  match atom.test with
  | .compare operator _ =>
    [(text.dropWhile fun char => !startsSymbol char).drop operator.symbol.length]
  | .search operator _ =>
    match cut (spaced operator) text with
    | none => []
    | some (_, list) => (Text.between? '(' ')' (trim list)).elim [] entries

theorem literals_of_ofText {text : Text} {atom : Atom} (decoded : ofText text = .ok atom) :
    atom.test.literals = (literalTexts text atom).map Scalar.ofText := by
  rcases ofText_eq_ok decoded with ⟨operator, left, list, found, -, searched⟩ | ⟨-, compared⟩
  · obtain ⟨name, inner, -, listed, rfl⟩ := ofMembership_eq_ok searched
    simp only [Test.literals, literalTexts, found, listed, Option.elim_some, literals_eq]
  · obtain ⟨name, operator, rest, literal, -, read, valued, rfl⟩ := ofComparison_eq_ok compared
    simp only [Test.literals, literalTexts, Comparison.append_of_read? read, List.drop_left,
      List.map_singleton, Text.eq_trim_of_nonBlank? valued, Scalar.ofText_trim]

/--
No literal of an atom is read as the missing number, and none as an infinite number exactly if no
numeral among the texts of the literals is too large.
-/
theorem literals_finite_iff {text : Text} {atom : Atom} (decoded : ofText text = .ok atom) :
    atom.test.literals = (literalTexts text atom).map Scalar.ofText ∧
      (∀ value, .real value ∈ atom.test.literals → value.isNaN = false) ∧
      ((∀ value, .real value ∈ atom.test.literals → value.isInf = false) ↔
        ∀ part ∈ literalTexts text atom, ∀ decimal,
          Numeral.Decimal.ofText? (trim part) = some decimal →
            decimal.size < Numeral.overflow) := by
  have read := literals_of_ofText decoded
  refine ⟨read, ?_, ?_⟩
  · intro value isLiteral
    rw [read, List.mem_map] at isLiteral
    obtain ⟨part, -, same⟩ := isLiteral
    obtain ⟨decimal, -, rfl⟩ := Scalar.ofText_eq_real same
    exact decimal.isInf_toFloat.2
  constructor
  · intro finite part isPart decimal found
    by_contra large
    obtain ⟨value, same, infinite⟩ :=
      Scalar.ofText_isInf_iff.mpr ⟨decimal, found, not_lt.mp large⟩
    have isLiteral : .real value ∈ atom.test.literals := by
      rw [read, ← same]
      exact List.mem_map_of_mem isPart
    rw [finite value isLiteral] at infinite
    cases infinite
  · intro small value isLiteral
    rw [read, List.mem_map] at isLiteral
    obtain ⟨part, isPart, same⟩ := isLiteral
    rw [Bool.eq_false_iff]
    intro infinite
    obtain ⟨decimal, found, large⟩ := Scalar.ofText_isInf_iff.mp ⟨value, same, infinite⟩
    exact absurd large (not_le.mpr (small part isPart decimal found))

/-- A numeral just below the limit is read as the largest finite number. -/
theorem finite_list :
    let text := "x in (1.797693134862315807e308, y)".toList
    let atom : Atom := ⟨⟨none, ['x']⟩,
      .search .member [.real (.ofBits 0x7FEFFFFFFFFFFFFF), .text ['y']]⟩
    ofText text = .ok atom ∧
      ∀ value, .real value ∈ atom.test.literals → value.isNaN = false ∧ value.isInf = false := by
  intro text atom
  have decoded : ofText text = .ok atom := Error.eq_ok_of_toOption (by decide +kernel)
  obtain ⟨-, number, bound⟩ := literals_finite_iff decoded
  have parts : literalTexts text atom = ["1.797693134862315807e308".toList, " y".toList] := by
    decide +kernel
  have small : ∀ part ∈ literalTexts text atom, ∀ decimal,
      Numeral.Decimal.ofText? (trim part) = some decimal → decimal.size < Numeral.overflow := by
    rw [parts, List.forall_mem_cons, List.forall_mem_singleton]
    constructor
    · intro decimal found
      have same : decimal = ⟨false, 1797693134862315807, 290⟩ :=
        Option.some.inj (found.symm.trans (by decide +kernel))
      have below : ((1797693134862315807 * 10 ^ 290 + 2 ^ 970 : Nat) : ℚ) < (2 ^ 1024 : Nat) :=
        Nat.cast_lt.mpr (by decide +kernel)
      rw [Nat.cast_add, Nat.cast_mul, Nat.cast_pow, Nat.cast_pow, Nat.cast_pow] at below
      rw [same]
      exact lt_sub_iff_add_lt.mpr below
    · intro decimal found
      have none : Numeral.Decimal.ofText? (trim " y".toList) = none := by decide +kernel
      rw [none] at found
      cases found
  exact ⟨decoded, fun value isLiteral => ⟨number value isLiteral, bound.mpr small value isLiteral⟩⟩

/-- A numeral that is too large is read as an infinite number. -/
theorem infinite_comparison :
    ∃ atom value, ofText "x=1e999".toList = .ok atom ∧ .real value ∈ atom.test.literals ∧
      value.isInf := by
  exact ⟨⟨⟨none, ['x']⟩, .compare .equal (.real Numeral.Decimal.infinity)⟩,
    Numeral.Decimal.infinity, Error.eq_ok_of_toOption (by decide +kernel),
    List.mem_singleton_self _, Numeral.Decimal.isInf_fixed.1⟩

end Atom

end DataCondition
