import DataCondition.Proofs.Token.Piece
import DataCondition.Token.Folding

/-!
# Folding words

Folding joins operands and renames the words of operators. It neither makes nor loses a
parenthesis, nor does it join one with another word.
-/

namespace DataCondition

namespace Word

open Text

theorem IsNormal.isSolid_of_symbol {word : Text} (normal : IsNormal word)
    (symbol : (Comparison.ofSymbol? word).isSome) : IsSolid word :=
  @IsNormal.isSolid word normal (fun word => (Comparison.ofSymbol? word).isSome) symbol
    (by decide) (by decide)

theorem isNormal_negation : IsNormal negation :=
  .inr (.inr (isSolid_of_all (by decide) (by decide)))

theorem isNormal_notMember : IsNormal Membership.notMember.word :=
  .inr (.inr (isSolid_of_all (by decide) (by decide)))

namespace Folding

/-- All words are normal, and an operand that waits is solid. -/
structure IsNormal (state : Folding) : Prop where
  done : ∀ word ∈ state.done, Word.IsNormal word
  joined : ∀ joined, state.pending = .operand joined → IsSolid joined

/-- All that has been read, in order. -/
def written (state : Folding) : Text := state.flush.reverse.flatten

theorem isNormal_join {done : List Text} {symbol : Text}
    (normal : ∀ word ∈ done, Word.IsNormal word) (solid : IsSolid symbol) :
    (∀ word ∈ (join done symbol).1, Word.IsNormal word) ∧ IsSolid (join done symbol).2 := by
  unfold join
  split
  · exact ⟨normal, solid⟩
  next left rest =>
    rw [List.forall_mem_cons] at normal
    split
    next operand => exact ⟨normal.2, (normal.1.isSolid_of_isOperand operand).append solid⟩
    next => exact ⟨List.forall_mem_cons.mpr normal, solid⟩

theorem flatten_join (done : List Text) (symbol : Text) :
    (join done symbol).1.reverse.flatten ++ (join done symbol).2 =
      done.reverse.flatten ++ symbol := by
  unfold join
  split
  · rfl
  next left rest =>
    split
    · simp
    · rfl

theorem written_of_join (done : List Text) (symbol : Text) :
    ((join done symbol).2 :: (join done symbol).1).reverse.flatten =
      done.reverse.flatten ++ symbol := by
  rw [← flatten_join, List.reverse_cons, List.flatten_append]
  simp

theorem isNormal_start {done : List Text} {word : Text}
    (normal : ∀ word ∈ done, Word.IsNormal word) (next : Word.IsNormal word) :
    (start done word).IsNormal := by
  unfold start
  split
  · exact ⟨normal, nofun⟩
  split
  · exact ⟨normal, nofun⟩
  split
  next symbol =>
    obtain ⟨kept, solid⟩ := isNormal_join normal (next.isSolid_of_symbol symbol)
    refine ⟨kept, ?_⟩
    rintro joined ⟨⟩
    exact solid
  next => exact ⟨List.forall_mem_cons.mpr ⟨next, normal⟩, nofun⟩

theorem isNormal_complete {done : List Text} {joined word : Text}
    (normal : ∀ word ∈ done, Word.IsNormal word) (solid : IsSolid joined)
    (next : Word.IsNormal word) : (complete done joined word).IsNormal := by
  unfold complete
  split
  next operand =>
    have whole := solid.append (next.isSolid_of_isOperand operand)
    exact ⟨List.forall_mem_cons.mpr ⟨.inr (.inr whole), normal⟩, nofun⟩
  next => exact isNormal_start (List.forall_mem_cons.mpr ⟨.inr (.inr solid), normal⟩) next

theorem IsNormal.flush {state : Folding} (normal : state.IsNormal) :
    ∀ word ∈ state.flush, Word.IsNormal word := by
  obtain ⟨done, pending⟩ := state
  obtain ⟨words, waits⟩ := normal
  cases pending with
  | nothing => exact words
  | copula =>
      obtain ⟨kept, solid⟩ := isNormal_join words (isSolid_symbol .equal)
      exact List.forall_mem_cons.mpr ⟨.inr (.inr solid), kept⟩
  | negation => exact List.forall_mem_cons.mpr ⟨isNormal_negation, words⟩
  | operand joined => exact List.forall_mem_cons.mpr ⟨.inr (.inr (waits joined rfl)), words⟩

theorem IsNormal.step {state : Folding} (normal : state.IsNormal) {piece : Piece}
    (next : Word.IsNormal piece.word) : (state.step piece).IsNormal := by
  cases piece with
  | listed word => exact ⟨List.forall_mem_cons.mpr ⟨next, normal.flush⟩, nofun⟩
  | free word =>
      obtain ⟨done, pending⟩ := state
      obtain ⟨words, waits⟩ := normal
      cases pending with
      | nothing => exact isNormal_start words next
      | copula =>
          simp only [Folding.step]
          split
          · obtain ⟨kept, solid⟩ := isNormal_join words (isSolid_symbol .notEqual)
            refine ⟨kept, ?_⟩
            rintro joined ⟨⟩
            exact solid
          · obtain ⟨kept, solid⟩ := isNormal_join words (isSolid_symbol .equal)
            exact isNormal_complete kept solid next
      | negation =>
          simp only [Folding.step]
          split
          · exact ⟨List.forall_mem_cons.mpr ⟨isNormal_notMember, words⟩, nofun⟩
          · exact isNormal_start (List.forall_mem_cons.mpr ⟨isNormal_negation, words⟩) next
      | operand joined => exact isNormal_complete words (waits joined rfl) next

/-- A word is written as it is, except `is`. -/
theorem written_start {word : Text} (other : word ≠ copula) (done : List Text) :
    (start done word).written = done.reverse.flatten ++ word := by
  unfold start
  rw [if_neg other]
  split
  next negation => simp [written, flush, negation]
  split
  next => rw [written, flush, written_of_join]
  next => simp [written, flush]

theorem written_complete {word : Text} (other : word ≠ copula) (done : List Text) (joined : Text) :
    (complete done joined word).written = done.reverse.flatten ++ joined ++ word := by
  unfold complete
  split
  · simp [written, flush]
  · rw [written_start other]
    simp

theorem parentheses_start (done : List Text) (word : Text) :
    parentheses (start done word).written = parentheses (done.reverse.flatten ++ word) := by
  by_cases renamed : word = copula
  · rw [renamed, start, if_pos rfl, written, flush, written_of_join, parentheses_append,
      parentheses_append]
    rfl
  · rw [written_start renamed]

theorem parentheses_complete (done : List Text) (joined word : Text) :
    parentheses (complete done joined word).written =
      parentheses (done.reverse.flatten ++ joined ++ word) := by
  unfold complete
  split
  · simp [written, flush]
  · rw [parentheses_start]
    simp

theorem parentheses_step (state : Folding) (piece : Piece) :
    parentheses (state.step piece).written = parentheses (state.written ++ piece.word) := by
  cases piece with
  | listed word => simp [Folding.step, written, flush, Piece.word]
  | free word =>
      obtain ⟨done, pending⟩ := state
      cases pending with
      | nothing => exact parentheses_start done word
      | copula =>
          simp only [Folding.step]
          split
          next negation =>
            rw [written, flush, written_of_join, written, flush, written_of_join, Piece.word,
              negation]
            simp only [parentheses_append, (isSolid_symbol _).parentheses_eq_nil, List.append_nil]
            exact (List.append_nil _).symm
          next =>
            rw [parentheses_complete, flatten_join, written, flush, written_of_join]
            rfl
      | negation =>
          simp only [Folding.step]
          split
          next member =>
            simp [written, flush, Piece.word, member]
            rfl
          next =>
            rw [parentheses_start]
            rfl
      | operand joined =>
          rw [Folding.step, parentheses_complete]
          simp [written, flush, Piece.word]

theorem IsNormal.foldl {state : Folding} (normal : state.IsNormal) {pieces : List Piece}
    (words : ∀ piece ∈ pieces, Word.IsNormal piece.word) :
    (pieces.foldl Folding.step state).IsNormal := by
  induction pieces generalizing state with
  | nil => exact normal
  | cons piece rest induction =>
      rw [List.forall_mem_cons] at words
      exact induction (normal.step words.1) words.2

theorem parentheses_foldl (state : Folding) (pieces : List Piece) :
    parentheses (pieces.foldl Folding.step state).written =
      parentheses (state.written ++ (pieces.map Piece.word).flatten) := by
  induction pieces generalizing state with
  | nil => simp
  | cons piece rest induction =>
      rw [List.foldl_cons, induction, parentheses_append, parentheses_step]
      simp

end Folding

end Word

namespace Condition

open Text Word

/-- Every normal word of a condition is a parenthesis or holds none. -/
theorem isNormal_of_mem_words {condition word : Text} (member : word ∈ Condition.words condition) :
    IsNormal word := by
  have spaced : ∀ word ∈ Text.words (spaceParentheses condition), IsNormal word :=
    fun _ inside => Word.isNormal_of_mem_words inside
  have pieces := (piecewise_outside _).isNormal spaced
  have start : Folding.IsNormal ⟨[], .nothing⟩ := ⟨by simp, nofun⟩
  exact (start.foldl pieces).flush word (List.mem_reverse.mp member)

/-- The normal words of a condition have its parentheses, in order. -/
theorem parentheses_words (condition : Text) :
    parentheses (Condition.words condition).flatten = parentheses condition := by
  calc
    parentheses (Condition.words condition).flatten =
        parentheses ((outside (Text.words (spaceParentheses condition))).map Piece.word).flatten :=
      Folding.parentheses_foldl ⟨[], .nothing⟩ _
    _ = parentheses (Text.words (spaceParentheses condition)).flatten :=
      parentheses_eq_of_ink (piecewise_outside _).ink_eq
    _ = parentheses condition := by
      rw [flatten_words, parentheses_ink, parentheses_eq_of_ink (ink_spaceParentheses condition)]

end Condition

end DataCondition
