import DataCondition.Proofs.Text.Words

/-!
# Words on single spaces

Words that are joined by single spaces can be told apart again: none is lost, and a word between two
spaces is one of them.
-/

namespace DataCondition

namespace Text

theorem intercalate_append {left right : List Text} (first : left ≠ []) (last : right ≠ []) :
    [' '].intercalate (left ++ right) =
      [' '].intercalate left ++ ' ' :: [' '].intercalate right := by
  induction left with
  | nil => exact absurd rfl first
  | cons word left induction =>
      by_cases alone : left = []
      · subst alone
        rw [List.singleton_append, List.intercalate_cons_of_ne_nil last]
        simp
      · rw [List.cons_append, List.intercalate_cons_of_ne_nil (by simp [alone]), induction alone,
          List.intercalate_cons_of_ne_nil alone]
        simp

theorem exists_intercalate_cons (joint part : Text) (parts : List Text) :
    ∃ tail, joint.intercalate (part :: parts) = part ++ tail := by
  by_cases alone : parts = []
  · exact ⟨[], by simp [alone]⟩
  · exact ⟨joint ++ joint.intercalate parts, by simp [List.intercalate_cons_of_ne_nil alone]⟩

/-- If it holds of what joins some texts, something holds of all characters of the joined text
exactly if it does of those of each text. -/
theorem forall_mem_intercalate {property : Char → Prop} {joint : Text} {parts : List Text}
    (between : ∀ char ∈ joint, property char) :
    (∀ char ∈ joint.intercalate parts, property char) ↔
      ∀ part ∈ parts, ∀ char ∈ part, property char := by
  induction parts with
  | nil => simp
  | cons part parts induction =>
      rw [List.forall_mem_cons]
      by_cases alone : parts = []
      · subst alone
        simp
      · rw [List.intercalate_cons_of_ne_nil alone, List.forall_mem_append, List.forall_mem_append,
          induction, and_iff_left between]

/-- A text is spaced if it is its words on single spaces. -/
def IsSpaced (text : Text) : Prop := [' '].intercalate (words text) = text

theorem isSpaced_of_forall {text : Text} (unbroken : ∀ char ∈ text, isBlank char = false) :
    IsSpaced text := by
  by_cases none : text = []
  · subst none
    rfl
  · rw [IsSpaced, words_of_forall none unbroken, List.intercalate_singleton]

theorem IsSpaced.words_ne_nil {text : Text} (spaced : IsSpaced text) (nonempty : text ≠ []) :
    words text ≠ [] := by
  intro none
  rw [IsSpaced, none] at spaced
  exact nonempty spaced.symm

theorem IsSpaced.append_space {left right : Text} (first : IsSpaced left) (last : IsSpaced right)
    (nonempty : left ≠ []) (nonempty' : right ≠ []) : IsSpaced (left ++ ' ' :: right) := by
  rw [IsSpaced, words_append_blank _ _ isBlank_space,
    intercalate_append (first.words_ne_nil nonempty) (last.words_ne_nil nonempty'), first, last]

section Row

variable {parts : List Text} (nonempty : ∀ part ∈ parts, part ≠ [])
  (unbroken : ∀ part ∈ parts, ∀ char ∈ part, isBlank char = false)

include nonempty

theorem intercalate_ne_nil (joint : Text) (more : parts ≠ []) : joint.intercalate parts ≠ [] := by
  obtain ⟨part, rest, rfl⟩ := List.exists_cons_of_ne_nil more
  obtain ⟨tail, shape⟩ := exists_intercalate_cons joint part rest
  simp [shape, nonempty part List.mem_cons_self]

include unbroken

/-- Words on single spaces are spaced, also with something after the last one. -/
theorem isSpaced_append {tail : Text} (ends : ∀ char ∈ tail, isBlank char = false) :
    IsSpaced ([' '].intercalate parts ++ tail) := by
  induction parts with
  | nil => exact isSpaced_of_forall ends
  | cons part parts induction =>
      rw [List.forall_mem_cons] at nonempty unbroken
      by_cases alone : parts = []
      · subst alone
        rw [List.intercalate_singleton]
        exact isSpaced_of_forall (List.forall_mem_append.mpr ⟨unbroken.1, ends⟩)
      · have later := intercalate_ne_nil nonempty.2 [' '] alone
        rw [List.intercalate_cons_of_ne_nil alone, List.append_assoc, List.append_assoc]
        exact (isSpaced_of_forall unbroken.1).append_space (induction nonempty.2 unbroken.2)
          nonempty.1 (by simp [later])

/-- Words on single spaces neither start nor end with a blank. -/
theorem trim_intercalate : trim ([' '].intercalate parts) = [' '].intercalate parts := by
  induction parts with
  | nil => rfl
  | cons part parts induction =>
      rw [List.forall_mem_cons] at nonempty unbroken
      by_cases alone : parts = []
      · subst alone
        rw [List.intercalate_singleton, trim_of_forall unbroken.1]
      · obtain ⟨next, rest, rfl⟩ := List.exists_cons_of_ne_nil alone
        obtain ⟨char, more, rfl⟩ := List.exists_cons_of_ne_nil (nonempty.2 next List.mem_cons_self)
        obtain ⟨tail, shape⟩ := exists_intercalate_cons [' '] (char :: more) rest
        have solid : isBlank char = false :=
          unbroken.2 _ List.mem_cons_self char List.mem_cons_self
        rw [List.intercalate_cons_cons, List.append_assoc, List.singleton_append, shape,
          List.cons_append, trim_append_space nonempty.1 unbroken.1 solid, ← List.cons_append,
          ← shape, induction nonempty.2 unbroken.2]

end Row

/-- The inner members of a row are those with others before and after them. -/
theorem mem_inner_iff {word : Text} {parts : List Text} :
    word ∈ parts.tail.dropLast ↔
      ∃ before after, before ≠ [] ∧ after ≠ [] ∧ parts = before ++ word :: after := by
  constructor
  · intro inner
    obtain ⟨first, rest, rfl⟩ := List.exists_cons_of_ne_nil
      (show parts ≠ [] by rintro rfl; simp at inner)
    obtain ⟨before, after, split⟩ := List.append_of_mem inner
    have nonempty : rest ≠ [] := by
      rintro rfl
      simp at inner
    refine ⟨first :: before, after ++ [rest.getLast nonempty], by simp, by simp, ?_⟩
    rw [List.tail_cons] at split
    calc first :: rest = first :: (rest.dropLast ++ [rest.getLast nonempty]) := by
          rw [List.dropLast_concat_getLast]
      _ = first :: before ++ word :: (after ++ [rest.getLast nonempty]) := by simp [split]
  · rintro ⟨before, after, first, last, rfl⟩
    obtain ⟨head, before, rfl⟩ := List.exists_cons_of_ne_nil first
    simp [List.dropLast_append_of_ne_nil, List.dropLast_cons_of_ne_nil last]

/-- A word stands between two spaces exactly if it is an inner one. -/
theorem infix_intercalate_iff {word : Text} {parts : List Text} (unspaced : ' ' ∉ word)
    (apart : ∀ part ∈ parts, ' ' ∉ part) :
    ' ' :: word ++ [' '] <:+: [' '].intercalate parts ↔ word ∈ parts.tail.dropLast := by
  rw [mem_inner_iff]
  constructor
  · rintro ⟨before, after, shape⟩
    have nonempty : parts ≠ [] := by
      rintro rfl
      simp at shape
    have split := List.splitOn_intercalate ' ' apart nonempty
    have whole : before ++ (' ' :: word ++ [' ']) ++ after =
        before ++ ' ' :: (word ++ ' ' :: after) := by simp
    have outer : (before ++ ' ' :: (word ++ ' ' :: after)).splitOn ' ' =
        before.splitOn ' ' ++ (word ++ ' ' :: after).splitOn ' ' :=
      List.splitOnP_append_cons _ _ (by simp)
    have inner : (word ++ ' ' :: after).splitOn ' ' = word.splitOn ' ' ++ after.splitOn ' ' :=
      List.splitOnP_append_cons _ _ (by simp)
    have alone : word.splitOn ' ' = [word] := by
      apply List.splitOnP_eq_singleton
      intro char member
      simpa using ne_of_mem_of_not_mem member unspaced
    rw [← shape, whole, outer, inner, alone] at split
    exact ⟨before.splitOn ' ', after.splitOn ' ', by simp [List.splitOn_ne_nil],
      by simp [List.splitOn_ne_nil], split.symm⟩
  · rintro ⟨before, after, first, last, rfl⟩
    rw [intercalate_append first (by simp), List.intercalate_cons_of_ne_nil last]
    exact ⟨[' '].intercalate before, [' '].intercalate after, by simp⟩

end Text

end DataCondition
