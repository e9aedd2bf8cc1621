import DataCondition.Proofs.Text.Words

/-!
# Parentheses in a text

A text is covered if no prefix of it closes more parentheses than it opens. Whether it is covered
hangs on its parentheses alone.
-/

namespace DataCondition

namespace Text

/-- Whether a character is a parenthesis. -/
def isParenthesis (char : Char) : Bool := char = '(' || char = ')'

/-- The parentheses of a text, in order. -/
def parentheses (text : Text) : Text := text.filter isParenthesis

/-- No prefix of the text closes more parentheses than it opens. -/
def Covered (text : Text) : Prop := ∀ before, before <+: text → before.count ')' ≤ before.count '('

/-- As many parentheses close as open. -/
def Closed (text : Text) : Prop := text.count '(' = text.count ')'

instance (text : Text) : Decidable (Closed text) :=
  inferInstanceAs (Decidable (text.count '(' = text.count ')'))

@[simp]
theorem parentheses_nil : parentheses [] = [] := rfl

@[simp]
theorem parentheses_append (left right : Text) :
    parentheses (left ++ right) = parentheses left ++ parentheses right :=
  List.filter_append ..

theorem parentheses_cons (char : Char) (rest : Text) :
    parentheses (char :: rest) =
      if isParenthesis char then char :: parentheses rest else parentheses rest :=
  List.filter_cons

theorem parentheses_eq_nil {text : Text} (none : ∀ char ∈ text, isParenthesis char = false) :
    parentheses text = [] := by
  simpa [parentheses] using none

theorem count_opening (text : Text) : (parentheses text).count '(' = text.count '(' :=
  List.count_filter rfl

theorem count_closing (text : Text) : (parentheses text).count ')' = text.count ')' :=
  List.count_filter rfl

theorem isBlank_of_isParenthesis {char : Char} (parenthesis : isParenthesis char) :
    isBlank char = false := by
  simp only [isParenthesis, Bool.or_eq_true, decide_eq_true_eq] at parenthesis
  rcases parenthesis with rfl | rfl <;> rfl

theorem parentheses_ink (text : Text) : parentheses (ink text) = parentheses text := by
  rw [parentheses, ink, List.filter_filter]
  apply List.filter_congr
  intro char _
  by_cases parenthesis : isParenthesis char
  · simp [parenthesis, isBlank_of_isParenthesis parenthesis]
  · simp [parenthesis]

/-- Texts that differ in their blanks alone have the same parentheses. -/
theorem parentheses_eq_of_ink {left right : Text} (same : ink left = ink right) :
    parentheses left = parentheses right := by
  rw [← parentheses_ink, same, parentheses_ink]

theorem covered_parentheses {text : Text} : Covered (parentheses text) ↔ Covered text := by
  constructor
  · intro covered before front
    have counted := covered (parentheses before) (front.filter isParenthesis)
    rwa [count_opening, count_closing] at counted
  · intro covered before front
    obtain ⟨source, start, rfl⟩ := List.prefix_filter_iff.mp front
    have counted := covered source start
    rwa [← count_opening, ← count_closing] at counted

theorem closed_parentheses {text : Text} : Closed (parentheses text) ↔ Closed text := by
  rw [Closed, Closed, count_opening, count_closing]

theorem Covered.count_le {text : Text} (covered : Covered text) :
    text.count ')' ≤ text.count '(' :=
  covered text List.prefix_rfl

theorem covered_of_not_mem {text : Text} (unclosed : ')' ∉ text) : Covered text := by
  intro before front
  have none : before.count ')' = 0 := List.count_eq_zero.mpr fun inside =>
    unclosed (front.subset inside)
  omega

theorem Covered.append {left right : Text} (first : Covered left) (second : Covered right) :
    Covered (left ++ right) := by
  intro before front
  rcases List.prefix_or_prefix_of_prefix front (List.prefix_append left right) with inside | past
  · exact first before inside
  · obtain ⟨rest, rfl⟩ := past
    have counted := second rest ((List.prefix_append_right_inj left).mp front)
    have whole := first.count_le
    simp only [List.count_append]
    omega

/-- A covered text with parentheses around it is covered. -/
theorem Covered.enclose {text : Text} (covered : Covered text) :
    Covered ('(' :: text ++ [')']) := by
  intro before front
  rcases List.prefix_cons_iff.mp front with rfl | ⟨rest, rfl, inside⟩
  · exact Nat.le_refl _
  · rcases List.prefix_concat_iff.mp inside with rfl | inner
    · have whole := covered.count_le
      simp
      omega
    · have counted := covered rest inner
      simp
      omega

theorem closed_iff_not_mem {text : Text} (unclosed : ')' ∉ text) : Closed text ↔ '(' ∉ text := by
  rw [Closed, List.count_eq_zero.mpr unclosed, List.count_eq_zero]

/-- What is missing in one part cannot be made up for in another. -/
theorem Covered.closed_append {left right : Text} (first : Covered left) (second : Covered right) :
    Closed (left ++ right) ↔ Closed left ∧ Closed right := by
  have before := first.count_le
  have after := second.count_le
  rw [Closed, Closed, Closed, List.count_append, List.count_append]
  omega

theorem closed_enclose (text : Text) : Closed ('(' :: text ++ [')']) ↔ Closed text := by
  simp [Closed]

end Text

end DataCondition
