import DataCondition.Proofs.Atom.Literal
import DataCondition.Proofs.Atom.Subject
import DataCondition.Proofs.Token.Symbols

/-!
# How many symbols a comparison has

A comparison is cut at its first symbol only. Its value is a literal exactly if that symbol is the
only one.
-/

namespace DataCondition

open Text (words trim)

namespace Comparison

theorem eq_symbol_of_ofSymbol? {text : Text} {comparison : Comparison}
    (found : ofSymbol? text = some comparison) : text = comparison.symbol := by
  unfold ofSymbol? at found
  split at found
  next first read =>
    obtain rfl := Option.some.inj found
    rw [append_of_read? read, List.append_nil]
  next => cases found

theorem not_isLiteral_symbol (comparison : Comparison) : ¬ IsLiteral comparison.symbol := by
  cases comparison <;> decide

end Comparison

namespace Word

/-- The comparison symbols of a text, longer ones first. -/
def symbols (text : Text) : List Comparison :=
  (words (spaceComparisons text)).filterMap Comparison.ofSymbol?

/-- The words of a literal are no symbols. -/
theorem filterMap_words_eq_nil {text : Text} (literal : IsLiteral text) :
    (words text).filterMap Comparison.ofSymbol? = [] := by
  rw [List.filterMap_eq_nil_iff]
  intro word member
  rw [Option.eq_none_iff_forall_ne_some]
  intro comparison found
  refine comparison.not_isLiteral_symbol ?_
  rw [← Comparison.eq_symbol_of_ofSymbol? found]
  exact literal.of_subset fun char inside => Text.mem_of_mem_words member inside

theorem filterMap_words_append {left text rest : Text} {comparison : Comparison}
    (literal : IsLiteral left) (found : Comparison.read? text = some (comparison, rest)) :
    (words (left ++ spaceComparisons text)).filterMap Comparison.ofSymbol? =
      comparison :: symbols rest := by
  rw [words_append_spaceComparisons left found, List.filterMap_append,
    filterMap_words_eq_nil literal, List.nil_append,
    List.filterMap_cons_some comparison.ofSymbol?_symbol]
  rfl

theorem isLiteral_of_plain {text : Text} (plain : ∀ char ∈ text, Atom.startsSymbol char = false) :
    IsLiteral text := by
  intro char member mark
  have other := startsSymbol_eq_false.mp (plain char member)
  simp only [Comparison.marks, List.mem_cons, List.not_mem_nil, or_false] at mark
  rcases mark with rfl | rfl | rfl <;> simp at other

/-- A text with plain characters before a symbol has that symbol and those after it. -/
theorem symbols_append {left text rest : Text} {comparison : Comparison}
    (plain : ∀ char ∈ left, Atom.startsSymbol char = false)
    (found : Comparison.read? text = some (comparison, rest)) :
    symbols (left ++ text) = comparison :: symbols rest := by
  rw [symbols, spaceComparisons_append plain,
    filterMap_words_append (isLiteral_of_plain plain) found]

/-- Where no symbol is read, no mark stands. -/
theorem not_mem_marks_of_read? {char : Char} {rest : Text}
    (unread : Comparison.read? (char :: rest) = none) : char ∉ Comparison.marks := by
  intro mark
  simp only [Comparison.marks, List.mem_cons, List.not_mem_nil, or_false] at mark
  unfold Comparison.read? at unread
  split at unread <;> simp_all

theorem spaceComparisons_of_read?_eq_none {char : Char} {rest : Text}
    (unread : Comparison.read? (char :: rest) = none) :
    spaceComparisons (char :: rest) = char :: spaceComparisons rest := by
  have plain : (char ≠ '>' ∧ char ≠ '<') ∧ char ≠ '=' := by
    simpa [Comparison.marks, and_assoc] using not_mem_marks_of_read? unread
  rw [spaceComparisons]
  · simp [plain]
  · exact fun _ same => absurd same plain.1.1
  · exact fun _ same => absurd same plain.1.2
  · rintro others rfl rfl
    cases unread

theorem filterMap_words_eq_nil_iff {before text : Text} (literal : IsLiteral before) :
    (words (before ++ spaceComparisons text)).filterMap Comparison.ofSymbol? = [] ↔
      IsLiteral text := by
  induction text generalizing before with
  | nil =>
      rw [spaceComparisons, List.append_nil]
      exact iff_of_true (filterMap_words_eq_nil literal) isLiteral_nil
  | cons char rest induction =>
      cases found : Comparison.read? (char :: rest) with
      | some parts =>
          obtain ⟨comparison, after⟩ := parts
          rw [filterMap_words_append literal found, Comparison.append_of_read? found,
            isLiteral_append]
          exact iff_of_false (List.cons_ne_nil _ _) fun parts =>
            comparison.not_isLiteral_symbol parts.1
      | none =>
          have plain := not_mem_marks_of_read? found
          have longer : IsLiteral (before ++ [char]) :=
            isLiteral_append.mpr ⟨literal, isLiteral_cons.mpr ⟨plain, isLiteral_nil⟩⟩
          rw [spaceComparisons_of_read?_eq_none found, List.append_cons, induction longer,
            isLiteral_cons, and_iff_right plain]

/-- A text has no symbols exactly if it can be a literal. -/
theorem symbols_eq_nil_iff (text : Text) : symbols text = [] ↔ IsLiteral text :=
  filterMap_words_eq_nil_iff isLiteral_nil

end Word

namespace Atom

open Word (IsSolid symbols)

theorem test_of_ofComparison {text : Text} {atom : Atom} (decoded : ofComparison text = .ok atom) :
    ∃ operator rest,
      Comparison.read? (text.dropWhile fun char => !startsSymbol char) = some (operator, rest) ∧
        atom.test = .compare operator (Scalar.ofText (trim rest)) := by
  obtain ⟨name, operator, rest, literal, -, read, valued, rfl⟩ := ofComparison_eq_ok decoded
  obtain rfl := Text.eq_trim_of_nonBlank? valued
  exact ⟨operator, rest, read, rfl⟩

theorem test_of_ofMembership {operator : Membership} {left list text : Text} {atom : Atom}
    (decoded : ofMembership operator left list text = .ok atom) :
    ∃ literals, atom.test = .search operator literals := by
  obtain ⟨name, inner, -, -, rfl⟩ := ofMembership_eq_ok decoded
  exact ⟨literals inner, rfl⟩

/-- What stands around the first symbol is the name and the literal of a comparison. -/
theorem ofComparison_append {left right name literal : Text} {operator : Comparison}
    (plain : ∀ char ∈ left, startsSymbol char = false)
    (read : Comparison.read? (operator.symbol ++ right) = some (operator, right))
    (named : Text.nonBlank? left = some name) (valued : Text.nonBlank? right = some literal) :
    ofComparison (left ++ operator.symbol ++ right) =
      .ok ⟨Attribute.ofText name, .compare operator (Scalar.ofText literal)⟩ := by
  have before : ∀ char ∈ left, (!startsSymbol char) = true := by simpa using plain
  obtain ⟨char, tail, shape, starts⟩ :
      ∃ char tail, operator.symbol ++ right = char :: tail ∧ startsSymbol char := by
    cases operator <;> exact ⟨_, _, rfl, rfl⟩
  have front : (left ++ char :: tail).takeWhile (fun char => !startsSymbol char) = left := by
    rw [List.takeWhile_append_of_pos before, List.takeWhile_cons_of_neg (by simp [starts]),
      List.append_nil]
  have back :
      (left ++ char :: tail).dropWhile (fun char => !startsSymbol char) = char :: tail := by
    rw [List.dropWhile_append_of_pos before, List.dropWhile_cons_of_neg (by simp [starts])]
  rw [shape] at read
  rw [List.append_assoc, shape, ofComparison]
  simp only [front, back, read, valued, subject?, named]
  rfl

/-- What a test compares with can be a literal, if it compares. -/
def ComparesLiteral (atom : Atom) : Prop :=
  ∀ operator literal, atom.test = .compare operator literal → IsLiteral literal.toText

/-- A word compares with a literal exactly if it has one symbol. -/
theorem comparesLiteral_iff {word : Text} (solid : IsSolid word) {atom : Atom}
    (decoded : ofText word = .ok atom) :
    atom.ComparesLiteral ↔ ∃ operator, symbols word = [operator] := by
  rw [ofText_of_isSolid solid] at decoded
  obtain ⟨operator, rest, read, test⟩ := test_of_ofComparison decoded
  have shape : word = word.takeWhile (fun char => !startsSymbol char) ++
      word.dropWhile fun char => !startsSymbol char := List.takeWhile_append_dropWhile.symm
  have plain : ∀ char ∈ word.takeWhile fun char => !startsSymbol char,
      startsSymbol char = false := by
    intro char member
    simpa using List.all_eq_true.mp List.all_takeWhile char member
  have unbroken : trim rest = rest := by
    apply Text.trim_of_forall
    intro char member
    refine solid.unbroken char ?_
    rw [shape, Comparison.append_of_read? read]
    simp [member]
  have several : symbols word = operator :: symbols rest := by
    rw [shape, Word.symbols_append plain read]
  have compares : atom.ComparesLiteral ↔ IsLiteral (Scalar.ofText (trim rest)).toText := by
    simp [ComparesLiteral, test]
  rw [compares, unbroken, Scalar.isLiteral_toText_ofText, unbroken, ← Word.symbols_eq_nil_iff,
    several]
  simp

/-- A test that has a membership word compares with nothing. -/
theorem comparesLiteral_of_spaced {word list : Text} {operator : Membership}
    {atom : Atom} (decoded : ofText (word ++ spaced operator ++ list) = .ok atom) :
    atom.ComparesLiteral := by
  obtain ⟨_, _, _, -, -, searched⟩ := exists_cut_of_spaced ⟨word, list, rfl⟩ decoded
  obtain ⟨literals, test⟩ := test_of_ofMembership searched
  intro comparison literal compares
  cases test.symm.trans compares

end Atom

namespace Token

open Word (IsSolid IsNormal symbols)

/-- A test compares with a literal exactly if its text, where it has no space, has one symbol. -/
theorem Tests.comparesLiteral_iff {words : List Text} {text : Text} (tests : Tests words text)
    (normal : ∀ word ∈ words, IsNormal word) {atom : Atom} (decoded : Atom.ofText text = .ok atom) :
    atom.ComparesLiteral ↔ (' ' ∉ text → ∃ operator, symbols text = [operator]) := by
  obtain ⟨word, solid, rfl | ⟨operator, list, rfl⟩⟩ := tests.exists_word normal
  · simpa [Atom.space_not_mem solid] using Atom.comparesLiteral_iff solid decoded
  · have spaced : ' ' ∈ word ++ Atom.spaced operator ++ list := by simp [Atom.spaced]
    exact iff_of_true (Atom.comparesLiteral_of_spaced decoded) (absurd spaced)

end Token

end DataCondition
