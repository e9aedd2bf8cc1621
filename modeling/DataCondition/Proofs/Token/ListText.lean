import DataCondition.Proofs.Text.Spaces
import DataCondition.Proofs.Token.Item
import DataCondition.Token.Reading

/-!
# The text of a list

The words of a list are joined by single spaces, and the spaces around commas are left out.
-/

namespace DataCondition

namespace Token

open Text (isBlank trim)

/-- A text without the blanks around its commas and at its ends. -/
def squeeze (text : Text) : Text := [','].intercalate ((text.splitOn ',').map trim)

theorem squeeze_of_not_mem {text : Text} (absent : ',' ∉ text) : squeeze text = trim text := by
  rw [squeeze, List.splitOn_eq_singleton absent]
  simp

/-- The text before the first comma is trimmed. -/
theorem squeeze_append_comma {left : Text} (absent : ',' ∉ left) (right : Text) :
    squeeze (left ++ ',' :: right) = trim left ++ ',' :: squeeze right := by
  have more : (right.splitOn ',').map trim ≠ [] := by
    simp [List.splitOn_ne_nil]
  rw [squeeze, List.splitOn_append_cons_self_of_not_mem absent, List.map_cons,
    List.intercalate_cons_of_ne_nil more]
  simp [squeeze]

/-- Only the text up to the first comma is trimmed together with what stands before it. -/
theorem exists_squeeze_append {char : Char} (other : char ≠ ',') (rest : Text) :
    ∃ front tail, ∀ left, ',' ∉ left →
      squeeze (left ++ char :: rest) = trim (left ++ char :: front) ++ tail := by
  by_cases comma : ',' ∈ rest
  · obtain ⟨front, back, rfl, absent⟩ := List.eq_append_cons_of_mem comma
    refine ⟨front, ',' :: squeeze back, fun left unmarked => ?_⟩
    rw [← List.cons_append, ← List.append_assoc, squeeze_append_comma]
    simp [unmarked, absent, Ne.symm other]
  · refine ⟨rest, [], fun left unmarked => ?_⟩
    rw [squeeze_of_not_mem, List.append_nil]
    simp [unmarked, comma, Ne.symm other]

theorem squeeze_space {char : Char} (rest : Text) :
    squeeze (' ' :: char :: rest) = squeeze (char :: rest) := by
  by_cases comma : char = ','
  · subst comma
    have spaced := @squeeze_append_comma [' '] (by decide) rest
    have alone := @squeeze_append_comma [] (by simp) rest
    exact spaced.trans alone.symm
  · obtain ⟨front, tail, trimmed⟩ := exists_squeeze_append comma rest
    have spaced := trimmed [' '] (by decide)
    have alone := trimmed [] (by simp)
    rw [List.nil_append, List.nil_append] at alone
    rw [← List.singleton_append, spaced, alone, List.singleton_append, Text.trim_space]

/-- A space between words is kept, but not next to a comma. -/
theorem squeeze_append_space {word rest : Text} {char : Char} (nonempty : word ≠ [])
    (unbroken : ∀ char ∈ word, isBlank char = false) (solid : isBlank char = false) :
    squeeze (word ++ ' ' :: char :: rest) =
      if word.getLast? = some ',' ∨ char = ',' then word ++ squeeze (char :: rest)
      else word ++ ' ' :: squeeze (char :: rest) := by
  by_cases marked : ',' ∈ word
  · obtain ⟨front, back, rfl, absent⟩ := List.eq_append_cons_of_mem marked
    rw [List.forall_mem_append, List.forall_mem_cons] at unbroken
    rw [List.append_assoc, List.cons_append, squeeze_append_comma absent,
      Text.trim_of_forall unbroken.1]
    by_cases last : back = []
    · subst last
      simp [squeeze_space]
    · have same : (front ++ ',' :: back).getLast? = back.getLast? := by
        obtain ⟨final, ends⟩ := Option.ne_none_iff_exists'.mp (mt List.getLast?_eq_none_iff.mp last)
        simp [List.getLast?_append, List.getLast?_cons, ends]
      rw [squeeze_append_space last unbroken.2.2 solid, same]
      split <;> simp
  · have final : word.getLast? ≠ some ',' :=
      fun last => marked (List.mem_of_getLast? last)
    by_cases comma : char = ','
    · subst comma
      have unspaced : ',' ∉ word ++ [' '] := by simp [marked]
      have alone := @squeeze_append_comma [] (by simp) rest
      rw [if_pos (.inr rfl), List.append_cons, squeeze_append_comma unspaced,
        Text.trim_concat_space, Text.trim_of_forall unbroken]
      exact congrArg _ alone.symm
    · obtain ⟨front, tail, trimmed⟩ := exists_squeeze_append comma rest
      have alone := trimmed [] (by simp)
      rw [List.nil_append, List.nil_append] at alone
      rw [if_neg (by simp [final, comma]), List.append_cons, trimmed _ (by simp [marked]), alone,
        List.append_assoc, List.singleton_append, Text.trim_append_space nonempty unbroken solid]
      simp
termination_by word.length

/-- A text without blanks is left as it is. -/
theorem squeeze_of_forall {text : Text} (unbroken : ∀ char ∈ text, isBlank char = false) :
    squeeze text = text := by
  by_cases marked : ',' ∈ text
  · obtain ⟨front, back, rfl, absent⟩ := List.eq_append_cons_of_mem marked
    rw [List.forall_mem_append, List.forall_mem_cons] at unbroken
    rw [squeeze_append_comma absent, Text.trim_of_forall unbroken.1,
      squeeze_of_forall unbroken.2.2]
  · rw [squeeze_of_not_mem marked, Text.trim_of_forall unbroken]
termination_by text.length

/-- The words of a list are joined by spaces that no comma is next to. -/
theorem compact_eq_listText {words : List Text} (solid : ∀ word ∈ words, Word.IsSolid word) :
    compact words = Word.listText words := by
  change squeeze ([' '].intercalate words) = _
  induction words with
  | nil => rfl
  | cons word words induction =>
      obtain ⟨first, others⟩ := List.forall_mem_cons.mp solid
      cases words with
      | nil =>
          rw [List.intercalate_singleton, Word.listText, squeeze_of_forall first.unbroken]
      | cons next words =>
          obtain ⟨char, rest, rfl⟩ := List.exists_cons_of_ne_nil
            (others _ List.mem_cons_self).nonempty
          have letter : isBlank char = false := by
            simpa using (others _ List.mem_cons_self).unbroken char
          obtain ⟨more, shape⟩ := Text.exists_intercalate_cons [' '] (char :: rest) words
          rw [List.cons_append] at shape
          rw [List.intercalate_cons_cons, List.append_assoc, List.singleton_append, shape,
            squeeze_append_space first.nonempty first.unbroken letter, ← shape,
            induction others, Word.listText]
          simp

end Token

end DataCondition
