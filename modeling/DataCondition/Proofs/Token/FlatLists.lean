import DataCondition.Token.Word

/-!
# Flat lists

A list ends at the first parenthesis that closes. It is flat if none opens before that.
-/

namespace DataCondition

namespace Word

/-- Wherever a list opens, a parenthesis closes before another opens. -/
def FlatLists (words : List Text) : Prop :=
  ∀ (operator : Membership) (inside : List Text),
    operator.word :: opening :: (inside ++ [opening]) <:+: words → closing ∈ inside

theorem FlatLists.of_infix {words part : List Text} (flat : FlatLists words)
    (within : part <:+: words) : FlatLists part :=
  fun operator inside found => flat operator inside (found.trans within)

theorem opening_ne_operator (operator : Membership) : opening ≠ operator.word := by
  cases operator <;> decide

theorem closing_ne_operator (operator : Membership) : closing ≠ operator.word := by
  cases operator <;> decide

theorem flatLists_nil : FlatLists [] := by
  intro operator inside found
  simp at found

/-- A word that asks for no list does not matter. -/
theorem flatLists_cons {word : Text} (rest : List Text)
    (other : ∀ operator : Membership, word ≠ operator.word) :
    FlatLists (word :: rest) ↔ FlatLists rest := by
  constructor
  · intro flat
    exact flat.of_infix (List.suffix_cons word rest).isInfix
  · intro flat operator inside found
    rcases List.infix_cons_iff.mp found with starts | later
    · exact absurd (List.cons_prefix_cons.mp starts).1.symm (other operator)
    · exact flat operator inside later

/-- No list opens among words without a parenthesis, even right before one that closes. -/
theorem flatLists_items {items : List Text} (rest : List Text) (unopened : opening ∉ items) :
    FlatLists (items ++ closing :: rest) ↔ FlatLists rest := by
  induction items with
  | nil => exact flatLists_cons rest closing_ne_operator
  | cons item items induction =>
      rw [List.mem_cons, not_or] at unopened
      rw [← induction unopened.2]
      constructor
      · intro flat
        exact flat.of_infix (List.suffix_cons item _).isInfix
      · intro flat operator inside found
        rcases List.infix_cons_iff.mp found with starts | later
        · have follows := (List.cons_prefix_cons.mp starts).2
          cases items with
          | nil => exact absurd (List.cons_prefix_cons.mp follows).1 (by decide)
          | cons second others =>
              refine absurd (List.cons_prefix_cons.mp follows).1 fun same => unopened.2 ?_
              rw [same]
              exact List.mem_cons_self
        · exact flat operator inside later

/-- A list is flat if no parenthesis opens among its items. -/
theorem flatLists_list (operator : Membership) {items : List Text} (rest : List Text)
    (unclosed : closing ∉ items) :
    FlatLists (operator.word :: opening :: (items ++ closing :: rest)) ↔
      opening ∉ items ∧ FlatLists rest := by
  constructor
  · intro flat
    constructor
    · intro member
      obtain ⟨before, after, rfl⟩ := List.append_of_mem member
      have closed := flat operator before ⟨[], after ++ closing :: rest, by simp⟩
      exact unclosed (List.mem_append_left _ closed)
    · exact flat.of_infix ⟨operator.word :: opening :: (items ++ [closing]), [], by simp⟩
  · rintro ⟨unopened, flat⟩ other inside found
    rcases List.infix_cons_iff.mp found with starts | later
    · have within := (List.cons_prefix_cons.mp (List.cons_prefix_cons.mp starts).2).2
      have list : items ++ [closing] <+: items ++ closing :: rest := ⟨rest, by simp⟩
      have differ : inside ++ [opening] ≠ items ++ [closing] := fun same =>
        absurd (List.append_inj' same rfl).2 (by decide)
      rcases List.prefix_or_prefix_of_prefix within list with shorter | longer
      · rcases List.prefix_concat_iff.mp shorter with same | inner
        · exact absurd same differ
        · exact absurd (inner.subset List.mem_concat_self) unopened
      · rcases List.prefix_concat_iff.mp longer with same | inner
        · exact absurd same.symm differ
        · exact inner.subset List.mem_concat_self
    · have after := (flatLists_items rest unopened).mpr flat
      exact (flatLists_cons _ opening_ne_operator).mpr after other inside later

end Word

end DataCondition
