import DataCondition.Proofs.Text.Words

/-!
# Trimmed texts

Trimming takes blanks off both ends and leaves a text with none there. Blanks beside a text do not
change what is left of it.
-/

namespace DataCondition

namespace Text

/-- Neither the first nor the last character is a blank. -/
structure IsTrimmed (text : Text) : Prop where
  first : ∀ char ∈ text.head?, isBlank char = false
  last : ∀ char ∈ text.getLast?, isBlank char = false

theorem IsTrimmed.trim_eq {text : Text} (trimmed : IsTrimmed text) : trim text = text :=
  trim_of_ends trimmed.first trimmed.last

theorem head?_dropWhile {text : Text} :
    ∀ char ∈ (text.dropWhile isBlank).head?, isBlank char = false := by
  intro char first
  have solid := List.head?_dropWhile_not isBlank text
  rw [Option.mem_def.mp first] at solid
  exact solid

theorem isTrimmed_trim (text : Text) : IsTrimmed (trim text) where
  first := by
    intro char first
    have within : trim text <+: text.dropWhile isBlank := by
      rw [trim, ← List.reverse_suffix, List.reverse_reverse]
      exact List.dropWhile_suffix isBlank
    obtain ⟨rest, shape⟩ := within
    refine @head?_dropWhile text char ?_
    rw [← shape, List.head?_append, Option.mem_def.mp first]
    rfl
  last := by
    intro char last
    rw [trim, List.getLast?_reverse] at last
    exact head?_dropWhile char last

theorem trim_trim (text : Text) : trim (trim text) = trim text :=
  (isTrimmed_trim text).trim_eq

/-- Blanks before a text are trimmed away. -/
theorem trim_gap_append {gap : Text} (blank : IsGap gap) (text : Text) :
    trim (gap ++ text) = trim text := by
  rw [trim, List.dropWhile_append_of_pos blank, trim]

/-- Blanks after a text are trimmed away. -/
theorem trim_append_gap (text : Text) {gap : Text} (blank : IsGap gap) :
    trim (text ++ gap) = trim text := by
  rw [trim, List.dropWhile_append]
  split
  next none =>
    rw [List.dropWhile_eq_nil_iff.mpr blank, trim, List.isEmpty_iff.mp none]
  next =>
    have behind : ∀ char ∈ gap.reverse, isBlank char := by simpa [IsGap] using blank
    rw [List.reverse_append, List.dropWhile_append_of_pos behind, trim]

/-- A text is its trimmed text with blanks on both sides. -/
theorem exists_gaps (text : Text) :
    ∃ before after, IsGap before ∧ IsGap after ∧ text = before ++ trim text ++ after := by
  let back := (text.dropWhile isBlank).reverse
  have blank (part : Text) : IsGap (part.takeWhile isBlank) :=
    fun char member => List.mem_takeWhile_imp member
  refine ⟨text.takeWhile isBlank, (back.takeWhile isBlank).reverse, blank text, ?_, ?_⟩
  · simpa [IsGap] using blank back
  · have whole : trim text ++ (back.takeWhile isBlank).reverse = text.dropWhile isBlank := by
      rw [trim, ← List.reverse_append, List.takeWhile_append_dropWhile, List.reverse_reverse]
    rw [List.append_assoc, whole, List.takeWhile_append_dropWhile]

theorem trim_infix (text : Text) : trim text <:+: text := by
  obtain ⟨before, after, -, -, shape⟩ := exists_gaps text
  exact ⟨before, after, shape.symm⟩

theorem nonBlank?_eq_some_iff {text core : Text} :
    nonBlank? text = some core ↔ trim text = core ∧ core ≠ [] := by
  simp only [nonBlank?, List.isEmpty_iff]
  constructor
  · intro found
    split at found
    next => cases found
    next nonempty => exact Option.some.inj found ▸ ⟨rfl, nonempty⟩
  · rintro ⟨rfl, nonempty⟩
    rw [if_neg nonempty]

theorem nonBlank?_trim (text : Text) : nonBlank? (trim text) = nonBlank? text := by
  simp only [nonBlank?, trim_trim]

/-- A text that is there and has no blanks around it. -/
structure IsCore (text : Text) : Prop extends IsTrimmed text where
  nonempty : text ≠ []

/-- What is left of a text that is not blank is a core, and a core is left as it is. -/
theorem isCore_iff {core : Text} : IsCore core ↔ ∃ text, nonBlank? text = some core := by
  simp only [nonBlank?_eq_some_iff]
  constructor
  · intro is
    exact ⟨core, is.trim_eq, is.nonempty⟩
  · rintro ⟨text, rfl, nonempty⟩
    exact ⟨isTrimmed_trim text, nonempty⟩

theorem IsCore.nonBlank?_eq {core : Text} (is : IsCore core) : nonBlank? core = some core :=
  nonBlank?_eq_some_iff.mpr ⟨is.trim_eq, is.nonempty⟩

/-- A core whose blanks are single spaces. -/
structure IsTidy (text : Text) : Prop extends IsCore text where
  space : ∀ char ∈ text, isBlank char → char = ' '
  single : ¬ [' ', ' '] <:+: text

/-- What stands before a space in a tidy text has no blank at its end. -/
theorem IsTidy.isCore_left {left rest : Text} (is : IsTidy (left ++ ' ' :: rest)) :
    IsCore left := by
  have nonempty : left ≠ [] := by
    rintro rfl
    cases is.first ' ' rfl
  have last : ∀ char ∈ left.getLast?, isBlank char = false := by
    intro char last
    obtain ⟨front, rfl⟩ := List.getLast?_eq_some_iff.mp last
    rw [Bool.eq_false_iff]
    intro blank
    obtain rfl := is.space char (by simp) blank
    exact is.single ⟨front, rest, by simp⟩
  refine ⟨⟨fun char first => is.first char ?_, last⟩, nonempty⟩
  rw [List.head?_append, Option.mem_def.mp first]
  rfl

/-- A character that is not in a text is not in what is left of it either. -/
theorem not_mem_of_nonBlank? {text core : Text} (found : nonBlank? text = some core) {char : Char}
    (absent : char ∉ text) : char ∉ core := by
  obtain ⟨rfl, -⟩ := nonBlank?_eq_some_iff.mp found
  exact fun inside => absent (mem_of_mem_trim inside)

end Text

end DataCondition
