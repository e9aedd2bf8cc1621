import DataCondition.Proofs.Atom.Literal
import DataCondition.Proofs.Numeral.Whole
import DataCondition.Proofs.Text.Parts

/-!
# Exact literals

A literal that is no decimal number is read back from its text, and so is a list of such literals.
A text is a literal as it stands, and whole numbers and truth values are written without blanks,
commas and equality signs.
-/

namespace DataCondition

open Text (IsGap isBlank nonBlank? trim)

/-- The literals that a test holds. -/
def Test.literals : Test → List Scalar
  | .compare _ literal => [literal]
  | .search _ literals => literals

/-- Whether no literal of an atom is a decimal number. -/
def Atom.IsExact (atom : Atom) : Prop := ∀ value, .real value ∉ atom.test.literals

/-- A character of a word that holds no comma and no equality sign. -/
def isBare (char : Char) : Bool := !isBlank char && char ≠ ',' && char ≠ '='

theorem isBlank_of_isBare {char : Char} (bare : isBare char) : isBlank char = false := by
  simp only [isBare, Bool.and_eq_true, Bool.not_eq_true'] at bare
  exact bare.1.1

theorem isBare_of_isDigit {char : Char} (digit : char.isDigit) : isBare char := by
  have solid : isBlank char = false := by
    rw [Bool.eq_false_iff]
    intro blank
    simp only [Char.isDigit, Bool.and_eq_true, decide_eq_true_eq, UInt32.le_iff_toNat_le,
      Char.toNat_val] at digit
    simp only [isBlank, Bool.or_eq_true, Bool.and_eq_true, decide_eq_true_eq, beq_iff_eq] at blank
    have low : 48 ≤ char.toNat := digit.1
    have high : char.toNat ≤ 57 := digit.2
    omega
  have other : char ≠ ',' ∧ char ≠ '=' := by
    constructor <;> rintro rfl <;> cases digit
  simp [isBare, solid, other]

theorem Numeral.isBare_of_mem_ofInt {value : Int} :
    ofInt value ≠ [] ∧ ∀ char ∈ ofInt value, isBare char := by
  have digits : ∀ char ∈ ofNat value.natAbs, isBare char :=
    fun char member => isBare_of_isDigit (isDigit_of_mem_ofNat member)
  have nonempty := (natural?_eq_some_iff.mp (natural?_ofNat value.natAbs)).nonempty
  unfold ofInt
  split
  · exact ⟨List.cons_ne_nil _ _, List.forall_mem_cons.mpr ⟨by decide, digits⟩⟩
  · exact ⟨nonempty, digits⟩

namespace Scalar

theorem ofText_trim (text : Text) : ofText (trim text) = ofText text := by
  rw [ofText, ofText, Text.trim_trim]

theorem ofText_ofInt (value : Int64) :
    ofText (Numeral.ofInt value.toInt) = .integer value := by
  have unbroken : ∀ char ∈ Numeral.ofInt value.toInt, isBlank char = false :=
    fun char member => isBlank_of_isBare (Numeral.isBare_of_mem_ofInt.2 char member)
  simp only [ofText, Text.trim_of_forall unbroken, Numeral.int64?_ofInt]

/-- A literal that is no decimal number is a whole number, a truth value or the text itself. -/
theorem ofText_cases {text : Text} (exact : ∀ value, ofText text ≠ .real value) :
    (∃ value, ofText text = .integer value) ∨ (∃ value, ofText text = .boolean value) ∨
      ofText text = .text (trim text) := by
  simp only [ofText] at exact ⊢
  split
  next value _ _ => exact .inl ⟨_, rfl⟩
  next value none found =>
    rw [none, found] at exact
    exact absurd rfl (exact value.toFloat)
  split
  next => exact .inr (.inl ⟨true, rfl⟩)
  split
  next => exact .inr (.inl ⟨false, rfl⟩)
  next => exact .inr (.inr rfl)

/-- The text of an exact literal is the text that it is read from, or one of bare characters. -/
theorem toText_ofText {text : Text} (exact : ∀ value, ofText text ≠ .real value) :
    (ofText text).toText = trim text ∨
      (ofText text).toText ≠ [] ∧ ∀ char ∈ (ofText text).toText, isBare char := by
  rcases ofText_cases exact with ⟨value, read⟩ | ⟨value, read⟩ | read
  · rw [read]
    exact .inr Numeral.isBare_of_mem_ofInt
  · rw [read]
    refine .inr ?_
    cases value <;> exact ⟨by decide, List.all_eq_true.mp (by decide)⟩
  · rw [read]
    exact .inl rfl

/-- An exact literal is read back from its text. -/
theorem ofText_toText {text : Text} (exact : ∀ value, ofText text ≠ .real value) :
    ofText (ofText text).toText = ofText text := by
  rcases ofText_cases exact with ⟨value, read⟩ | ⟨value, read⟩ | read
  · rw [read, toText, ofText_ofInt]
  · rw [read]
    cases value <;> decide +kernel
  · rw [read, toText, ofText_trim, read]

theorem nonBlank?_toText_ofText {text : Text} (exact : ∀ value, ofText text ≠ .real value)
    (inked : nonBlank? text ≠ none) : nonBlank? (ofText text).toText ≠ none := by
  rcases toText_ofText exact with same | ⟨nonempty, bare⟩
  · rwa [same, Text.nonBlank?_trim]
  · obtain ⟨char, rest, shape⟩ := List.exists_cons_of_ne_nil nonempty
    rw [shape, List.forall_mem_cons] at bare
    rw [shape]
    exact Text.nonBlank?_ne_none List.mem_cons_self (isBlank_of_isBare bare.1)

/-- The text of an exact literal has no character in addition, unless it is a bare one. -/
theorem not_mem_toText_ofText {char : Char} (other : isBare char = false) {text : Text}
    (exact : ∀ value, ofText text ≠ .real value) (absent : char ∉ text) :
    char ∉ (ofText text).toText := by
  rcases toText_ofText exact with same | ⟨-, bare⟩
  · rw [same]
    exact fun inside => absent (Text.mem_of_mem_trim inside)
  · intro inside
    rw [bare char inside] at other
    cases other

end Scalar

namespace Atom

/-- The entries between the parentheses of a list. -/
def entries (inner : Text) : List Text :=
  if (nonBlank? inner).isNone then [] else inner.splitOn ','

theorem literals_eq (inner : Text) : literals inner = (entries inner).map Scalar.ofText := by
  rw [literals, entries]
  split <;> rfl

theorem entries_of_blank {inner : Text} (blank : nonBlank? inner = none) : entries inner = [] := by
  rw [entries, blank]
  rfl

theorem entries_of_inked {inner : Text} (inked : nonBlank? inner ≠ none) :
    entries inner = inner.splitOn ',' := by
  rw [entries, if_neg (by simpa using inked)]

theorem infix_of_mem_entries {inner part : Text} (isPart : part ∈ entries inner) :
    ',' ∉ part ∧ part <:+: inner := by
  by_cases blank : nonBlank? inner = none
  · rw [entries_of_blank blank] at isPart
    cases isPart
  · rw [entries_of_inked blank] at isPart
    exact Text.infix_of_mem_splitOn isPart

theorem nonBlank?_listText {parts : List Text}
    (exact : ∀ part ∈ parts, ∀ value, Scalar.ofText part ≠ .real value)
    (inked : nonBlank? ([','].intercalate parts) ≠ none) :
    nonBlank? (Scalar.listText (parts.map Scalar.ofText)) ≠ none := by
  rcases parts with _ | ⟨first, _ | ⟨second, rest⟩⟩
  · exact absurd rfl inked
  · rw [List.intercalate_singleton] at inked
    rw [List.map_singleton, Scalar.listText, List.map_singleton, List.intercalate_singleton]
    exact Scalar.nonBlank?_toText_ofText (exact first List.mem_cons_self) inked
  · have comma : ',' ∈ Scalar.listText ((first :: second :: rest).map Scalar.ofText) := by
      simp [Scalar.listText, List.intercalate_cons_cons]
    exact Text.nonBlank?_ne_none comma (by decide)

/-- A list of exact literals is read back from its text. -/
theorem literals_listText {inner : Text} (exact : ∀ value, .real value ∉ literals inner) :
    literals (Scalar.listText (literals inner)) = literals inner := by
  by_cases blank : nonBlank? inner = none
  · rw [literals_eq inner, entries_of_blank blank]
    rfl
  · have whole := literals_eq inner
    rw [entries_of_inked blank] at whole
    obtain ⟨more, apart, joined⟩ := Text.splitOn_eq_iff.mp (Eq.refl (inner.splitOn ','))
    have single : ∀ part ∈ inner.splitOn ',', ∀ value, Scalar.ofText part ≠ .real value := by
      intro part isPart value same
      refine exact value ?_
      rw [whole, ← same]
      exact List.mem_map_of_mem isPart
    have inked : nonBlank? (Scalar.listText (literals inner)) ≠ none := by
      rw [whole]
      exact nonBlank?_listText single (by rwa [joined])
    have split : (Scalar.listText (literals inner)).splitOn ',' =
        (literals inner).map Scalar.toText := by
      refine Text.splitOn_eq_iff.mpr ⟨by simp [whole, more], ?_, rfl⟩
      rw [whole, List.map_map, List.forall_mem_map]
      exact fun part isPart =>
        Scalar.not_mem_toText_ofText (by decide) (single part isPart) (apart part isPart)
    rw [literals_eq (Scalar.listText _), entries_of_inked inked, split, whole, List.map_map,
      List.map_map]
    exact List.map_congr_left fun part isPart => Scalar.ofText_toText (single part isPart)

/-- A mark with a space in it that stands in the text of a list stands in the list itself. -/
theorem infix_of_infix_listText {mark inner : Text} (space : ' ' ∈ mark) (commaless : ',' ∉ mark)
    (exact : ∀ value, .real value ∉ literals inner)
    (inside : mark <:+: Scalar.listText (literals inner)) : mark <:+: inner := by
  obtain ⟨text, isText, within⟩ :=
    Text.exists_infix_of_intercalate (List.ne_nil_of_mem space) commaless inside
  obtain ⟨literal, isLiteral, rfl⟩ := List.mem_map.mp isText
  have found := isLiteral
  rw [literals_eq, List.mem_map] at found
  obtain ⟨part, isPart, rfl⟩ := found
  have single : ∀ value, Scalar.ofText part ≠ .real value :=
    fun value same => exact value (same ▸ isLiteral)
  rcases Scalar.toText_ofText single with same | ⟨-, bare⟩
  · rw [same] at within
    exact (within.trans (Text.trim_infix part)).trans (infix_of_mem_entries isPart).2
  · exact absurd (bare ' ' (within.subset space)) (by decide)

end Atom

end DataCondition
