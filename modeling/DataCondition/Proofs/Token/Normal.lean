import DataCondition.Proofs.Text.Parentheses
import DataCondition.Token.Piece

/-!
# Parentheses as words of their own

Once parentheses are spaced, a word is a parenthesis or holds none. Cutting words around comparison
symbols keeps it so.
-/

namespace DataCondition

namespace Word

open Text

/-- A word that holds neither a blank nor a parenthesis. -/
structure IsSolid (word : Text) : Prop where
  nonempty : word ≠ []
  unbroken : ∀ char ∈ word, isBlank char = false
  plain : ∀ char ∈ word, isParenthesis char = false

/-- A parenthesis, or a word without one. -/
def IsNormal (word : Text) : Prop := word = opening ∨ word = closing ∨ IsSolid word

theorem isSolid_of_all {word : Text} (nonempty : word ≠ [])
    (all : word.all fun char => !isBlank char && !isParenthesis char) : IsSolid word := by
  simp only [List.all_eq_true, Bool.and_eq_true, Bool.not_eq_true'] at all
  exact ⟨nonempty, fun char member => (all char member).1, fun char member => (all char member).2⟩

theorem IsSolid.append {left right : Text} (first : IsSolid left) (second : IsSolid right) :
    IsSolid (left ++ right) where
  nonempty := by simp [first.nonempty]
  unbroken := by
    intro char member
    rcases List.mem_append.mp member with before | after
    · exact first.unbroken char before
    · exact second.unbroken char after
  plain := by
    intro char member
    rcases List.mem_append.mp member with before | after
    · exact first.plain char before
    · exact second.plain char after

theorem IsSolid.parentheses_eq_nil {word : Text} (solid : IsSolid word) : parentheses word = [] :=
  Text.parentheses_eq_nil solid.plain

theorem isSolid_symbol (comparison : Comparison) : IsSolid comparison.symbol := by
  cases comparison <;> exact isSolid_of_all (by decide) (by decide)

theorem IsSolid.not_mem {word : Text} (solid : IsSolid word) {char : Char}
    (parenthesis : isParenthesis char) : char ∉ word := by
  intro inside
  simp [solid.plain char inside] at parenthesis

/-- A normal word with a property that no parenthesis has is solid. -/
theorem IsNormal.isSolid {word : Text} (normal : IsNormal word) {property : Text → Prop}
    (has : property word) (opens : ¬property opening) (closes : ¬property closing) :
    IsSolid word := by
  rcases normal with rfl | rfl | solid
  · exact absurd has opens
  · exact absurd has closes
  · exact solid

theorem IsNormal.nonempty {word : Text} (normal : IsNormal word) : word ≠ [] := by
  rcases normal with rfl | rfl | solid
  · exact List.cons_ne_nil _ _
  · exact List.cons_ne_nil _ _
  · exact solid.nonempty

theorem IsNormal.unbroken {word : Text} (normal : IsNormal word) :
    ∀ char ∈ word, isBlank char = false := by
  rcases normal with rfl | rfl | solid
  · exact List.forall_mem_singleton.mpr rfl
  · exact List.forall_mem_singleton.mpr rfl
  · exact solid.unbroken

theorem IsNormal.isSolid_of_isOperand {word : Text} (normal : IsNormal word)
    (operand : isOperand word) : IsSolid word :=
  @IsNormal.isSolid word normal (isOperand ·) operand (by decide) (by decide)

/-- A normal word with a parenthesis in it is that parenthesis. -/
theorem IsNormal.eq_singleton {word : Text} (normal : IsNormal word) {char : Char}
    (parenthesis : isParenthesis char) (member : char ∈ word) : word = [char] := by
  rcases normal with rfl | rfl | solid
  · rw [List.mem_singleton.mp member, opening]
  · rw [List.mem_singleton.mp member, closing]
  · exact absurd member (solid.not_mem parenthesis)

theorem mem_flatten_iff {words : List Text} (normal : ∀ word ∈ words, IsNormal word) {char : Char}
    (parenthesis : isParenthesis char) : char ∈ words.flatten ↔ [char] ∈ words := by
  constructor
  · intro inside
    obtain ⟨word, isWord, member⟩ := List.mem_flatten.mp inside
    rwa [← (normal word isWord).eq_singleton parenthesis member]
  · intro isWord
    exact List.mem_flatten.mpr ⟨[char], isWord, List.mem_singleton_self char⟩

theorem spaceParentheses_cons (char : Char) (rest : Text) :
    spaceParentheses (char :: rest) =
      if isParenthesis char then ' ' :: char :: ' ' :: spaceParentheses rest
      else char :: spaceParentheses rest := by
  change (if isParenthesis char then [' ', char, ' '] else [char]) ++ spaceParentheses rest = _
  split
  · rfl
  · rfl

theorem ink_spaceParentheses (text : Text) : ink (spaceParentheses text) = ink text := by
  induction text with
  | nil => rfl
  | cons char rest induction =>
      rw [spaceParentheses_cons]
      split
      next => simp [ink_cons, isBlank_space, induction]
      next => simp [ink_cons, induction]

theorem isNormal_singleton {char : Char} (parenthesis : isParenthesis char) : IsNormal [char] := by
  simp only [isParenthesis, Bool.or_eq_true, decide_eq_true_eq] at parenthesis
  rcases parenthesis with rfl | rfl
  · exact .inl rfl
  · exact .inr (.inl rfl)

theorem isSolid_of_mem_words {text word : Text} (plain : ∀ char ∈ text, isParenthesis char = false)
    (member : word ∈ Text.words text) : IsSolid word where
  nonempty := ne_nil_of_mem_words member
  unbroken := fun _ inside => isBlank_of_mem_words member inside
  plain := fun char inside => plain char (mem_of_mem_words member inside)

/-- The words of a text in which parentheses are spaced, after a text without any. -/
theorem isNormal_of_mem_append {before text word : Text}
    (plain : ∀ char ∈ before, isParenthesis char = false)
    (member : word ∈ Text.words (before ++ spaceParentheses text)) : IsNormal word := by
  induction text generalizing before with
  | nil =>
      rw [show spaceParentheses [] = [] from rfl, List.append_nil] at member
      exact .inr (.inr (isSolid_of_mem_words plain member))
  | cons char rest induction =>
      rw [spaceParentheses_cons] at member
      by_cases parenthesis : isParenthesis char
      · have single : Text.words [char] = [[char]] := by
          apply words_of_forall (List.cons_ne_nil _ _)
          intro inside equal
          rw [List.mem_singleton.mp equal]
          exact isBlank_of_isParenthesis parenthesis
        have apart : Text.words (char :: ' ' :: spaceParentheses rest) =
            [char] :: Text.words (spaceParentheses rest) := by
          have split := words_append_blank [char] (spaceParentheses rest) isBlank_space
          rwa [single] at split
        rw [if_pos parenthesis, words_append_blank _ _ isBlank_space, apart, List.mem_append,
          List.mem_cons] at member
        rcases member with front | rfl | back
        · exact .inr (.inr (isSolid_of_mem_words plain front))
        · exact isNormal_singleton parenthesis
        · exact @induction [] (by simp) back
      · rw [if_neg parenthesis, List.append_cons] at member
        apply induction _ member
        intro inside within
        rcases List.mem_append.mp within with front | back
        · exact plain inside front
        · rw [List.mem_singleton.mp back]
          simpa using parenthesis

theorem isNormal_of_mem_words {text word : Text}
    (member : word ∈ Text.words (spaceParentheses text)) : IsNormal word :=
  @isNormal_of_mem_append [] text word (by simp) member

end Word

end DataCondition
