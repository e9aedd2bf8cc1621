import DataCondition.Text.Cut

/-!
# Where a text is cut
-/

namespace DataCondition

namespace Text

/-- A text that starts with the mark is cut right there. -/
theorem cut_append (mark rest : Text) : cut mark (mark ++ rest) = some ([], rest) := by
  cases shape : mark ++ rest with
  | nil =>
      obtain ⟨rfl, rfl⟩ := List.append_eq_nil_iff.mp shape
      rfl
  | cons char others =>
      have starts : mark.isPrefixOf (char :: others) := by
        rw [List.isPrefixOf_iff_prefix, ← shape]
        exact List.prefix_append mark rest
      rw [cut, if_pos starts, ← shape, List.drop_left]

/-- What does not hold the first character of the mark stays in front of the cut. -/
theorem cut_append_of_not_mem {first : Char} {word : Text} (absent : first ∉ word)
    (mark rest : Text) :
    cut (first :: mark) (word ++ rest) =
      (cut (first :: mark) rest).map fun (before, after) => (word ++ before, after) := by
  induction word with
  | nil =>
      change _ = (cut (first :: mark) rest).map id
      rw [Option.map_id]
      rfl
  | cons char word induction =>
      rw [List.mem_cons, not_or] at absent
      have differ : ¬ (first :: mark).isPrefixOf (char :: (word ++ rest)) := by
        rw [List.isPrefixOf_iff_prefix, List.cons_prefix_cons]
        exact fun starts => absent.1 starts.1
      rw [List.cons_append, cut, if_neg differ, induction absent.2, Option.map_map]
      rfl

theorem cut_append_cons_of_not_mem {first : Char} {word : Text} (absent : first ∉ word)
    (mark rest : Text) :
    cut (first :: mark) (word ++ first :: (mark ++ rest)) = some (word, rest) := by
  rw [cut_append_of_not_mem absent, ← List.cons_append, cut_append]
  simp

/-- What stands after the first mark has no part in where a text is cut. -/
theorem cut_append_of_cut {mark text before after : Text}
    (found : cut mark text = some (before, after)) (rest : Text) :
    cut mark (before ++ mark ++ rest) = some (before, rest) := by
  induction text generalizing before with
  | nil =>
      obtain ⟨⟨rfl, -⟩, -⟩ := by simpa using append_of_cut found
      exact cut_append mark rest
  | cons char text induction =>
      rw [cut] at found
      split at found
      next =>
        obtain ⟨rfl, -⟩ := Prod.mk.inj (Option.some.inj found)
        exact cut_append mark rest
      next differ =>
        obtain ⟨⟨left, right⟩, later, shape⟩ := Option.map_eq_some_iff.mp found
        obtain ⟨rfl, rfl⟩ := Prod.mk.inj shape
        have same : text = left ++ mark ++ right := append_of_cut later
        -- a mark at the start would end before `rest`
        have differ' : ¬ mark.isPrefixOf (char :: (left ++ mark ++ rest)) := by
          rw [List.isPrefixOf_iff_prefix] at differ ⊢
          intro starts
          have within : mark <+: char :: (left ++ mark) :=
            List.prefix_of_prefix_length_le starts ⟨rest, by simp⟩ (by simp; omega)
          exact differ (within.trans ⟨right, by simp [same]⟩)
        rw [List.cons_append, List.cons_append, cut, if_neg differ', induction later]
        rfl

/-- What is cut at a single character does not hold it in front. -/
theorem not_mem_of_cut {char : Char} {text before after : Text}
    (found : cut [char] text = some (before, after)) : char ∉ before := by
  induction text generalizing before with
  | nil => cases found
  | cons first rest induction =>
      rw [cut] at found
      split at found
      next =>
        obtain ⟨rfl, -⟩ := Prod.mk.inj (Option.some.inj found)
        exact List.not_mem_nil
      next differ =>
        obtain ⟨⟨left, right⟩, later, shape⟩ := Option.map_eq_some_iff.mp found
        obtain ⟨rfl, rfl⟩ := Prod.mk.inj shape
        rw [List.mem_cons, not_or]
        refine ⟨?_, induction later⟩
        rintro rfl
        exact differ (List.isPrefixOf_iff_prefix.mpr (List.prefix_append [char] rest))

theorem dropClosing?_eq_some_iff {mark : Char} {text core : Text} :
    dropClosing? mark text = some core ↔ text = core ++ [mark] := by
  rw [dropClosing?]
  constructor
  · intro found
    split at found
    next last =>
      obtain rfl := Option.some.inj found
      rw [List.getLast?_eq_some_iff] at last
      obtain ⟨core, rfl⟩ := last
      rw [List.dropLast_concat]
    next => cases found
  · rintro rfl
    rw [if_pos List.getLast?_concat, List.dropLast_concat]

theorem between?_eq_some_iff {opening closing : Char} {text core : Text} :
    between? opening closing text = some core ↔ text = opening :: (core ++ [closing]) := by
  cases text with
  | nil => simp [between?]
  | cons char rest =>
      rw [between?]
      split
      next same => rw [dropClosing?_eq_some_iff, same, List.cons.injEq, and_iff_right rfl]
      next differ => simp [differ]

/-- A text can be taken apart in one way only where a character stands first. -/
theorem append_cons_inj {char : Char} {left left' right right' : Text} (absent : char ∉ left)
    (absent' : char ∉ left') (same : left ++ char :: right = left' ++ char :: right') :
    left = left' ∧ right = right' := by
  have first := cut_append_cons_of_not_mem absent [] right
  have second := cut_append_cons_of_not_mem absent' [] right'
  rw [List.nil_append] at first second
  rw [same, second] at first
  simpa [eq_comm] using first

/-- A text is not cut exactly if the mark stands nowhere in it. -/
theorem cut_eq_none_iff {mark text : Text} (nonempty : mark ≠ []) :
    cut mark text = none ↔ ¬ mark <:+: text := by
  induction text with
  | nil => simp [cut, nonempty]
  | cons char rest induction =>
      rw [List.infix_cons_iff, not_or, ← induction, cut]
      split
      next starts => simp [List.isPrefixOf_iff_prefix.mp starts]
      next later =>
        rw [List.isPrefixOf_iff_prefix] at later
        simp [later]

theorem prefix_of_prefix_append_cons {mark left right : Text} {char : Char} (absent : char ∉ mark)
    (starts : mark <+: left ++ char :: right) : mark <+: left := by
  have longer : left ++ [char] <+: left ++ char :: right := ⟨right, by simp⟩
  rcases List.prefix_or_prefix_of_prefix starts longer with within | ⟨rest, rfl⟩
  · rcases List.prefix_concat_iff.mp within with rfl | before
    · simp at absent
    · exact before
  · simp at absent

/-- A text that does not hold the mark stays in front of the cut, up to a character not in it. -/
theorem cut_append_cons_of_not_infix {mark left : Text} {char : Char} (absent : char ∉ mark)
    (free : ¬ mark <:+: left) (right : Text) :
    cut mark (left ++ char :: right) =
      (cut mark right).map fun (before, after) => (left ++ char :: before, after) := by
  induction left with
  | nil =>
      have differ : ¬ mark.isPrefixOf (char :: right) := by
        rw [List.isPrefixOf_iff_prefix]
        exact fun starts =>
          free (@prefix_of_prefix_append_cons mark [] _ _ absent starts).isInfix
      rw [List.nil_append, cut, if_neg differ]
      rfl
  | cons first left induction =>
      rw [List.infix_cons_iff, not_or] at free
      have differ : ¬ mark.isPrefixOf (first :: (left ++ char :: right)) := by
        rw [List.isPrefixOf_iff_prefix]
        exact fun starts =>
          free.1 (@prefix_of_prefix_append_cons mark (first :: left) _ _ absent starts)
      rw [List.cons_append, cut, if_neg differ, induction free.2, Option.map_map]
      rfl

/-- A mark does not reach across a character that it does not hold. -/
theorem infix_append_cons_iff {mark left right : Text} {char : Char} (absent : char ∉ mark) :
    mark <:+: left ++ char :: right ↔ mark <:+: left ∨ mark <:+: right := by
  by_cases free : mark <:+: left
  · exact iff_of_true (free.trans List.infix_append_left) (.inl free)
  · have nonempty : mark ≠ [] := by
      rintro rfl
      exact free List.nil_infix
    rw [or_iff_right free, ← Decidable.not_iff_not, ← cut_eq_none_iff nonempty,
      cut_append_cons_of_not_infix absent free, Option.map_eq_none_iff, cut_eq_none_iff nonempty]

end Text

end DataCondition
