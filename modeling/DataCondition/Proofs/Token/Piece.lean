import DataCondition.Proofs.Token.Normal

/-!
# Words and their pieces

Whether inside or outside a list, a word is one piece or is cut into its own pieces.
-/

namespace DataCondition

namespace Word

open Text

/-- The word that a piece is. -/
def Piece.word : Piece → Text
  | .free word => word
  | .listed word => word

/-- Rows of words and of pieces that these may be cut into. -/
inductive Piecewise : List Text → List Piece → Prop
  | nil : Piecewise [] []
  | single {words pieces} (piece : Piece) (rest : Piecewise words pieces) :
      Piecewise (piece.word :: words) (piece :: pieces)
  | cut {words others} (word : Text) (rest : Piecewise words others) :
      Piecewise (word :: words) (pieces word ++ others)

mutual

theorem piecewise_outside (words : List Text) : Piecewise words (outside words) := by
  match words with
  | [] => exact .nil
  | [word] =>
      have last := Piecewise.cut word .nil
      rwa [List.append_nil] at last
  | word :: next :: rest =>
      rw [outside]
      split
      · exact .single (.free word) (.single (.free next) (piecewise_inside rest))
      · exact .cut word (piecewise_outside (next :: rest))
termination_by structural words

theorem piecewise_inside (words : List Text) : Piecewise words (inside words) := by
  match words with
  | [] => exact .nil
  | word :: rest =>
      rw [inside]
      split
      · exact .single (.free word) (piecewise_outside rest)
      · exact .single (.listed word) (piecewise_inside rest)
termination_by structural words

end

theorem mem_of_mem_spaceComparisons {word : Text} {char : Char}
    (member : char ∈ spaceComparisons word) : char = ' ' ∨ char ∈ word := by
  fun_induction spaceComparisons word <;> grind

theorem ink_spaceComparisons (word : Text) : ink (spaceComparisons word) = ink word := by
  fun_induction spaceComparisons word <;> grind [ink_cons, isBlank_space]

theorem isNormal_of_mem_pieces {word : Text} (normal : IsNormal word) {piece : Piece}
    (member : piece ∈ pieces word) : IsNormal piece.word := by
  obtain ⟨part, isPart, rfl⟩ := List.mem_map.mp member
  rcases normal with rfl | rfl | solid
  · exact .inl (List.mem_singleton.mp isPart)
  · exact .inr (.inl (List.mem_singleton.mp isPart))
  · refine .inr (.inr (isSolid_of_mem_words ?_ isPart))
    intro char inside
    rcases mem_of_mem_spaceComparisons inside with rfl | within
    · rfl
    · exact solid.plain char within

theorem map_word_pieces (word : Text) :
    (pieces word).map Piece.word = Text.words (spaceComparisons word) := by
  rw [pieces, List.map_map]
  exact List.map_id _

theorem Piecewise.isNormal {words : List Text} {pieces : List Piece}
    (piecewise : Piecewise words pieces) (normal : ∀ word ∈ words, IsNormal word) :
    ∀ piece ∈ pieces, IsNormal piece.word := by
  induction piecewise with
  | nil => simp
  | single piece _ induction =>
      rw [List.forall_mem_cons] at normal ⊢
      exact ⟨normal.1, induction normal.2⟩
  | cut word _ induction =>
      rw [List.forall_mem_cons] at normal
      rw [List.forall_mem_append]
      exact ⟨fun piece member => isNormal_of_mem_pieces normal.1 member, induction normal.2⟩

/-- Cutting words keeps all that is no blank, in order. -/
theorem Piecewise.ink_eq {words : List Text} {pieces : List Piece}
    (piecewise : Piecewise words pieces) :
    ink (pieces.map Piece.word).flatten = ink words.flatten := by
  induction piecewise with
  | nil => rfl
  | single piece _ induction =>
      rw [List.map_cons, List.flatten_cons, List.flatten_cons, ink_append, induction, ink_append]
  | cut word _ induction =>
      rw [List.map_append, List.flatten_append, List.flatten_cons, ink_append, induction,
        map_word_pieces, flatten_words, ink_ink, ink_spaceComparisons, ink_append]

end Word

end DataCondition
