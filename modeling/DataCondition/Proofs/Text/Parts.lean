import DataCondition.Proofs.Text.Cut
import DataCondition.Proofs.Text.Spaces
import DataCondition.Proofs.Text.Trimmed

/-!
# The parts of a text

A mark cuts a text at every place where it stands. Joining the parts with the mark gives the text
back, and blanks beside the mark are trimmed away with the ends of the parts.
-/

namespace DataCondition

namespace Text

theorem not_mem_of_mem_splitOnP {mark : Char → Bool} {text part : Text}
    (isPart : part ∈ text.splitOnP mark) : ∀ char ∈ part, mark char = false := by
  induction text generalizing part with
  | nil =>
      rw [List.splitOnP_nil, List.mem_singleton] at isPart
      simp [isPart]
  | cons char rest induction =>
      obtain ⟨first, others, shape⟩ := List.exists_cons_of_ne_nil (List.splitOnP_ne_nil mark rest)
      rw [List.splitOnP_cons_eq_if_modifyHead, shape] at isPart
      rw [shape] at induction
      split at isPart
      next =>
        rcases List.mem_cons.mp isPart with rfl | later
        · exact List.forall_mem_nil _
        · exact induction later
      next other =>
        rcases List.mem_cons.mp isPart with rfl | later
        · exact List.forall_mem_cons.mpr ⟨by simpa using other, induction List.mem_cons_self⟩
        · exact induction (List.mem_cons_of_mem _ later)

/-- The parts of a text are those that hold no mark and give the text when joined with marks. -/
theorem splitOn_eq_iff {mark : Char} {text : Text} {parts : List Text} :
    text.splitOn mark = parts ↔
      parts ≠ [] ∧ (∀ part ∈ parts, mark ∉ part) ∧ [mark].intercalate parts = text := by
  constructor
  · rintro rfl
    refine ⟨List.splitOn_ne_nil mark text, ?_, List.intercalate_splitOn mark⟩
    intro part isPart inside
    simpa using not_mem_of_mem_splitOnP isPart mark inside
  · rintro ⟨nonempty, apart, rfl⟩
    exact List.splitOn_intercalate mark apart nonempty

theorem infix_intercalate_of_mem (joint : Text) {part : Text} {parts : List Text}
    (isPart : part ∈ parts) : part <:+: joint.intercalate parts := by
  induction parts with
  | nil => cases isPart
  | cons first parts induction =>
      rcases List.mem_cons.mp isPart with rfl | later
      · obtain ⟨tail, shape⟩ := exists_intercalate_cons joint part parts
        rw [shape]
        exact List.infix_append_left
      · rw [List.intercalate_cons_of_ne_nil (List.ne_nil_of_mem later)]
        exact (induction later).trans List.infix_append_right

/-- A part of a text holds no mark and is written in the text. -/
theorem infix_of_mem_splitOn {mark : Char} {text part : Text}
    (isPart : part ∈ text.splitOn mark) : mark ∉ part ∧ part <:+: text := by
  obtain ⟨-, apart, joined⟩ := splitOn_eq_iff.mp (Eq.refl (text.splitOn mark))
  refine ⟨apart part isPart, ?_⟩
  have inside := infix_intercalate_of_mem [mark] isPart
  rwa [joined] at inside

/-- A mark that is written over joined texts is written in one of them. -/
theorem exists_infix_of_intercalate {mark : Text} {joint : Char} (nonempty : mark ≠ [])
    (absent : joint ∉ mark) {parts : List Text} (inside : mark <:+: [joint].intercalate parts) :
    ∃ part ∈ parts, mark <:+: part := by
  induction parts with
  | nil => exact absurd (List.infix_nil.mp inside) nonempty
  | cons part parts induction =>
      by_cases alone : parts = []
      · subst alone
        rw [List.intercalate_singleton] at inside
        exact ⟨part, List.mem_cons_self, inside⟩
      · rw [List.intercalate_cons_of_ne_nil alone, List.append_assoc, List.singleton_append,
          infix_append_cons_iff absent] at inside
        rcases inside with here | later
        · exact ⟨part, List.mem_cons_self, here⟩
        · obtain ⟨other, member, within⟩ := induction later
          exact ⟨other, List.mem_cons_of_mem _ member, within⟩

section Gaps

variable {mark : Char} (before after : Text) (blank : IsGap (before ++ after))
  (absent : mark ∉ before ++ after)

include blank absent

theorem map_trim_splitOn_append {parts : List Text} (nonempty : parts ≠ [])
    (apart : ∀ part ∈ parts, mark ∉ part) {gap : Text} (ahead : IsGap gap) (clear : mark ∉ gap) :
    ((gap ++ (before ++ mark :: after).intercalate parts).splitOn mark).map trim =
      parts.map trim := by
  induction parts generalizing gap with
  | nil => exact absurd rfl nonempty
  | cons part parts induction =>
      rw [List.forall_mem_cons] at apart
      by_cases alone : parts = []
      · subst alone
        have single : mark ∉ gap ++ part := by simp [clear, apart.1]
        rw [List.intercalate_singleton, List.splitOn_eq_singleton single, List.map_singleton,
          List.map_singleton, trim_gap_append ahead]
      · obtain ⟨blankBefore, blankAfter⟩ := List.forall_mem_append.mp blank
        rw [List.mem_append, not_or] at absent
        have single : mark ∉ gap ++ part ++ before := by simp [clear, apart.1, absent.1]
        have shape : gap ++ (before ++ mark :: after).intercalate (part :: parts) =
            (gap ++ part ++ before) ++
              mark :: (after ++ (before ++ mark :: after).intercalate parts) := by
          simp [List.intercalate_cons_of_ne_nil alone]
        rw [shape, List.splitOn_append_cons_self_of_not_mem single, List.map_cons, List.map_cons,
          induction alone apart.2 blankAfter absent.2, List.append_assoc, trim_gap_append ahead,
          trim_append_gap _ blankBefore]

/-- Parts are trimmed when read back from where they were joined, with blanks beside the marks. -/
theorem map_trim_splitOn {parts : List Text} (nonempty : parts ≠ [])
    (apart : ∀ part ∈ parts, mark ∉ part) :
    (((before ++ mark :: after).intercalate parts).splitOn mark).map trim = parts.map trim :=
  map_trim_splitOn_append before after blank absent nonempty apart (List.forall_mem_nil _)
    List.not_mem_nil

end Gaps

end Text

end DataCondition
