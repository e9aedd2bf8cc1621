import Mathlib.Data.List.TakeWhile
import DataCondition.Text.Blank

/-!
# Words and trimming

Words and trimmed texts lose blanks and nothing else.
-/

namespace DataCondition

namespace Text

/-- A text without its blanks. -/
def ink (text : Text) : Text := text.filter fun char => !isBlank char

@[simp]
theorem ink_nil : ink [] = [] := rfl

@[simp]
theorem ink_append (left right : Text) : ink (left ++ right) = ink left ++ ink right :=
  List.filter_append ..

theorem ink_cons (char : Char) (rest : Text) :
    ink (char :: rest) = if isBlank char then ink rest else char :: ink rest := by
  by_cases blank : isBlank char
  · simp [ink, blank]
  · simp [ink, blank]

theorem ink_of_forall {text : Text} (noBlank : ∀ char ∈ text, isBlank char = false) :
    ink text = text := by
  simpa [ink] using noBlank

theorem ink_ink (text : Text) : ink (ink text) = ink text := by
  simp [ink]

theorem ink_intercalate (mark : Text) (parts : List Text) :
    ink (mark.intercalate parts) = (ink mark).intercalate (parts.map ink) := by
  induction parts with
  | nil => rfl
  | cons first rest induction =>
      cases rest with
      | nil => simp
      | cons second others =>
          rw [List.intercalate_cons_cons, ink_append, ink_append, induction, List.map_cons,
            List.map_cons, List.map_cons, List.intercalate_cons_cons]

/-- Blanks between parts do not matter. -/
theorem ink_intercalate_gap {gap : Text} (blank : ink gap = []) (parts : List Text) :
    ink (gap.intercalate parts) = ink parts.flatten := by
  induction parts with
  | nil => rfl
  | cons first rest induction =>
      cases rest with
      | nil => simp
      | cons second others =>
          rw [List.intercalate_cons_cons, ink_append, ink_append, induction, blank,
            List.append_nil, ← ink_append]
          rfl

theorem flatten_splitOnP (text : Text) : (text.splitOnP isBlank).flatten = ink text := by
  induction text with
  | nil => rfl
  | cons char rest induction =>
      rw [List.splitOnP_cons_eq_if_modifyHead]
      by_cases blank : isBlank char
      · simpa [blank, ink] using induction
      · obtain ⟨first, others, pieces⟩ :=
          List.exists_cons_of_ne_nil (List.splitOnP_ne_nil isBlank rest)
        rw [pieces] at induction ⊢
        simpa [blank, ink] using induction

/-- Words keep all that is no blank, in order. -/
theorem flatten_words (text : Text) : (words text).flatten = ink text := by
  rw [words, List.flatten_filter_not_isEmpty, flatten_splitOnP]

theorem isBlank_of_mem_words {text word : Text} {char : Char} (isWord : word ∈ words text)
    (member : char ∈ word) : isBlank char = false := by
  have inside : char ∈ (words text).flatten := List.mem_flatten.mpr ⟨word, isWord, member⟩
  rw [flatten_words, ink, List.mem_filter] at inside
  simpa using inside.2

theorem mem_of_mem_words {text word : Text} {char : Char} (isWord : word ∈ words text)
    (member : char ∈ word) : char ∈ text := by
  have inside : char ∈ (words text).flatten := List.mem_flatten.mpr ⟨word, isWord, member⟩
  rw [flatten_words, ink, List.mem_filter] at inside
  exact inside.1

theorem words_append_blank (left right : Text) {blank : Char} (isBlank : isBlank blank) :
    words (left ++ blank :: right) = words left ++ words right := by
  rw [words, List.splitOnP_append_cons left right isBlank, List.filter_append]
  rfl

theorem words_of_forall {word : Text} (nonempty : word ≠ [])
    (noBlank : ∀ char ∈ word, isBlank char = false) : words word = [word] := by
  rw [words, List.splitOnP_eq_singleton noBlank]
  simp [nonempty]

/-- What stands between two words, or around them all. -/
def IsGap (gap : Text) : Prop := ∀ char ∈ gap, isBlank char

instance (gap : Text) : Decidable (IsGap gap) := List.decidableBAll _ gap

theorem words_append_of_head? (left : Text) {rest : Text}
    (apart : ∀ char ∈ rest.head?, isBlank char) :
    words (left ++ rest) = words left ++ words rest := by
  cases rest with
  | nil => simp [words]
  | cons char rest =>
      have blank : isBlank char := apart char rfl
      have alone : words (char :: rest) = words rest := words_append_blank [] rest blank
      rw [words_append_blank left rest blank, alone]

theorem words_gap {gap : Text} (blank : IsGap gap) (rest : Text) :
    words (gap ++ rest) = words rest := by
  induction gap with
  | nil => rfl
  | cons char gap induction =>
      obtain ⟨first, others⟩ := List.forall_mem_cons.mp blank
      exact (words_append_blank [] (gap ++ rest) first).trans (induction others)

theorem ink_dropWhile (text : Text) : ink (text.dropWhile isBlank) = ink text := by
  induction text with
  | nil => rfl
  | cons char rest induction =>
      rw [List.dropWhile_cons]
      by_cases blank : isBlank char
      · simpa [blank, ink] using induction
      · simp [blank]

/-- Trimming keeps all that is no blank, in order. -/
theorem ink_trim (text : Text) : ink (trim text) = ink text := by
  rw [trim, ink, List.filter_reverse, ← ink, ink_dropWhile, ink, List.filter_reverse,
    List.reverse_reverse, ← ink, ink_dropWhile]

/-- What neither starts nor ends with a blank is left as it is. -/
theorem mem_of_mem_trim {text : Text} {char : Char} (inside : char ∈ trim text) : char ∈ text := by
  have dropped (text : Text) : text.dropWhile isBlank ⊆ text :=
    (List.dropWhile_sublist isBlank).subset
  rw [trim, List.mem_reverse] at inside
  exact dropped text (List.mem_reverse.mp (dropped _ inside))

theorem trim_of_ends {text : Text} (first : ∀ char ∈ text.head?, isBlank char = false)
    (last : ∀ char ∈ text.getLast?, isBlank char = false) : trim text = text := by
  have kept : ∀ part : Text, (∀ char ∈ part.head?, isBlank char = false) →
      part.dropWhile isBlank = part := by
    intro part starts
    cases part with
    | nil => rfl
    | cons char rest => rw [List.dropWhile_cons_of_neg (by simp [starts char rfl])]
  rw [trim, kept text first, kept text.reverse (by simpa using last), List.reverse_reverse]

/-- What holds no blank is left as it is. -/
theorem trim_of_forall {text : Text} (noBlank : ∀ char ∈ text, isBlank char = false) :
    trim text = text :=
  trim_of_ends (fun char first => noBlank char (List.mem_of_mem_head? first))
    fun char last => noBlank char (List.mem_of_getLast? last)

theorem nonBlank?_of_forall {text : Text} (nonempty : text ≠ [])
    (noBlank : ∀ char ∈ text, isBlank char = false) : nonBlank? text = some text := by
  simp [nonBlank?, trim_of_forall noBlank, nonempty]

theorem eq_trim_of_nonBlank? {text core : Text} (found : nonBlank? text = some core) :
    core = trim text := by
  simp only [nonBlank?] at found
  split at found
  next => cases found
  next => exact (Option.some.inj found).symm

/-- A text with a character that is no blank is not blank. -/
theorem nonBlank?_ne_none {text : Text} {char : Char} (member : char ∈ text)
    (solid : isBlank char = false) : nonBlank? text ≠ none := by
  have inked : char ∈ ink (trim text) := by
    rw [ink_trim, ink, List.mem_filter]
    simp [member, solid]
  have nonempty : trim text ≠ [] := by
    intro none
    simp [none, ink] at inked
  simp [nonBlank?, nonempty]

/-- What comes before a first character that is no blank is trimmed away. -/
theorem trim_space (rest : Text) : trim (' ' :: rest) = trim rest := by
  rw [trim, List.dropWhile_cons_of_pos isBlank_space]
  rfl

/-- A space is kept between two characters that are no blanks. -/
theorem trim_append_space {word rest : Text} {char : Char} (nonempty : word ≠ [])
    (unbroken : ∀ char ∈ word, isBlank char = false) (solid : isBlank char = false) :
    trim (word ++ ' ' :: char :: rest) = word ++ ' ' :: trim (char :: rest) := by
  obtain ⟨head, tail, rfl⟩ := List.exists_cons_of_ne_nil nonempty
  have first : isBlank head = false := unbroken head List.mem_cons_self
  have shape : (head :: tail ++ ' ' :: char :: rest).reverse =
      (char :: rest).reverse ++ ' ' :: (head :: tail).reverse := by simp
  have kept : ((char :: rest).reverse.dropWhile isBlank).isEmpty = false := by
    rw [List.isEmpty_eq_false_iff, Ne, List.dropWhile_eq_nil_iff]
    intro blank
    simp [blank char (by simp)] at solid
  rw [trim, trim, List.cons_append, List.dropWhile_cons_of_neg (by simp [first]),
    List.dropWhile_cons_of_neg (by simp [solid]), ← List.cons_append, shape,
    List.dropWhile_append, kept]
  simp

theorem trim_concat_space (text : Text) : trim (text ++ [' ']) = trim text := by
  rw [trim, List.dropWhile_append]
  split
  next blank =>
    rw [trim, List.isEmpty_iff.mp blank]
    rfl
  next => rw [List.reverse_append, List.reverse_singleton, List.singleton_append,
    List.dropWhile_cons_of_pos isBlank_space, trim]

/-- A blank between two characters that are none is not trimmed away. -/
theorem space_mem_trim {word : Text} {char : Char} (rest : Text) (nonempty : word ≠ [])
    (unbroken : ∀ char ∈ word, isBlank char = false) (solid : isBlank char = false) :
    ' ' ∈ trim (word ++ ' ' :: char :: rest) := by
  rw [trim_append_space nonempty unbroken solid]
  simp

end Text

end DataCondition
