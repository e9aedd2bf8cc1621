import DataCondition.Proofs.Token.ItemTokens

/-!
# Words between parentheses

Nothing is joined with a parenthesis. What stands between two of them is therefore folded as if it
stood alone.
-/

namespace DataCondition

namespace Word

/-- Where no parenthesis opens, no list does, so that words are cut each for itself. -/
theorem outside_of_not_mem {words : List Text} (unopened : opening ∉ words) :
    outside words = words.flatMap pieces := by
  induction words with
  | nil => rfl
  | cons word rest induction =>
      rw [List.mem_cons, not_or] at unopened
      rw [List.flatMap_cons, ← induction unopened.2]
      cases rest with
      | nil => simp [outside]
      | cons next others =>
          have apart : next ≠ opening := by
            rintro rfl
            exact unopened.2 List.mem_cons_self
          rw [outside, if_neg fun opens => apart opens.2]

/-- A list reaches to the first parenthesis that closes. -/
theorem inside_append {list : List Text} (unclosed : closing ∉ list) (rest : List Text) :
    inside (list ++ closing :: rest) = list.map .listed ++ .free closing :: outside rest := by
  induction list with
  | nil =>
      rw [List.nil_append, inside, if_pos rfl]
      rfl
  | cons word list induction =>
      rw [List.mem_cons, not_or] at unclosed
      rw [List.cons_append, inside, if_neg (Ne.symm unclosed.1), induction unclosed.2]
      rfl

/-- The words before a list are cut, and its own words are kept. -/
theorem outside_list {front list : List Text} (absent : Membership.member.word ∉ front)
    (unclosed : closing ∉ list) :
    outside (front ++ Membership.member.word :: opening :: (list ++ [closing])) =
      front.flatMap pieces ++ .free Membership.member.word ::
        .free opening :: (list.map .listed ++ [.free closing]) := by
  rw [outside_append absent, outside, if_pos ⟨rfl, rfl⟩, inside_append unclosed, outside]

namespace Folding

/-- The same state with words below those that are done. -/
def onto (below : List Text) (state : Folding) : Folding := ⟨state.done ++ below, state.pending⟩

/-- A closing parenthesis completes nothing; all that was pending is done before it. -/
theorem step_closing (state : Folding) :
    state.step (.free closing) = ⟨closing :: state.flush, .nothing⟩ := by
  obtain ⟨done, pending⟩ := state
  cases pending <;> rfl

section Below

variable {below : List Text} (apart : ∀ word ∈ below.head?, isOperand word = false)

include apart

/-- A symbol is not joined with a word below that is no operand. -/
theorem join_append (done : List Text) (symbol : Text) :
    join (done ++ below) symbol = ((join done symbol).1 ++ below, (join done symbol).2) := by
  cases done with
  | nil =>
      cases below with
      | nil => rfl
      | cons word rest => simp [join, apart word rfl]
  | cons left rest =>
      rw [List.cons_append, join, join]
      split <;> rfl

theorem start_append (done : List Text) (word : Text) :
    start (done ++ below) word = (start done word).onto below := by
  unfold start
  split
  · rfl
  split
  · rfl
  split
  · rw [join_append apart]
    rfl
  · rfl

theorem complete_append (done : List Text) (joined word : Text) :
    complete (done ++ below) joined word = (complete done joined word).onto below := by
  unfold complete
  split
  · rfl
  · exact start_append apart (joined :: done) word

theorem flush_onto (state : Folding) : (state.onto below).flush = state.flush ++ below := by
  obtain ⟨done, pending⟩ := state
  cases pending with
  | copula =>
      rw [onto, flush, flush, join_append apart]
      rfl
  | nothing | negation | operand joined => rfl

theorem step_onto (state : Folding) (piece : Piece) :
    (state.onto below).step piece = (state.step piece).onto below := by
  cases piece with
  | listed word =>
      rw [step, step, flush_onto apart]
      rfl
  | free word =>
      obtain ⟨done, pending⟩ := state
      cases pending with
      | nothing => exact start_append apart done word
      | copula =>
          simp only [onto, step, join_append apart]
          split
          · rfl
          · exact complete_append apart _ _ word
      | negation =>
          simp only [onto, step]
          split
          · rfl
          · exact start_append apart (negation :: done) word
      | operand joined => exact complete_append apart done joined word

theorem foldl_onto (state : Folding) (pieces : List Piece) :
    pieces.foldl step (state.onto below) = (pieces.foldl step state).onto below := by
  induction pieces generalizing state with
  | nil => rfl
  | cons piece pieces induction =>
      rw [List.foldl_cons, step_onto apart, induction, List.foldl_cons]

end Below

end Folding

/-- Whatever stands between two parentheses is folded for itself. -/
theorem folds_enclosed (pieces : List Piece) :
    Folds (.free opening :: (pieces ++ [.free closing]))
      (opening :: (fold pieces ++ [closing])) := by
  intro done
  have opened : Folding.step ⟨done, .nothing⟩ (.free opening) =
      Folding.onto (opening :: done) ⟨[], .nothing⟩ := rfl
  have apart : ∀ word ∈ (opening :: done).head?, isOperand word = false := by
    rintro word ⟨⟩
    rfl
  rw [List.foldl_cons, opened, List.foldl_append, Folding.foldl_onto apart, List.foldl_cons,
    Folding.step_closing, Folding.flush_onto apart, fold]
  simp

/-- A word that folding leaves as it is, whatever stands next to it. -/
inductive IsSteady : Text → Prop
  /-- A word that holds no symbol and is no part of a spelling of one. -/
  | reference {word : Text} (nonempty : word ≠ []) (reference : Atom.IsReference word)
      (uncopied : word ≠ copula) (unnegated : word ≠ negation) : IsSteady word
  /-- A whole comparison. -/
  | comparison {left right : Text} (first : IsPlain left) (operator : Comparison)
      (last : IsPlain right) : IsSteady (left ++ operator.symbol ++ right)

theorem IsSteady.folds_pieces {word : Text} (steady : IsSteady word) :
    Folds (pieces word) [word] := by
  cases steady with
  | reference nonempty reference uncopied unnegated =>
      rw [pieces_of_isReference nonempty reference]
      exact fun done => Folding.start_of_isReference done reference uncopied unnegated
  | @comparison left right first operator last =>
      have none : Text.IsGap [] := List.forall_mem_nil _
      have cut := words_comparison operator first.reference.startsSymbol
        last.reference.startsSymbol none none
      rw [List.nil_append, List.nil_append, ← List.append_assoc,
        Text.words_of_forall first.nonempty first.isSolid.unbroken,
        Text.words_of_forall last.nonempty last.isSolid.unbroken] at cut
      rw [pieces, cut]
      exact Item.folds_comparison ⟨left, first⟩ ⟨right, last⟩ (.symbol operator)

theorem folds_flatMap_pieces {words : List Text} (steady : ∀ word ∈ words, IsSteady word) :
    Folds (words.flatMap pieces) words := by
  induction words with
  | nil => exact folds_nil
  | cons word words later =>
      rw [List.forall_mem_cons] at steady
      exact steady.1.folds_pieces.append (later steady.2)

end Word

end DataCondition
