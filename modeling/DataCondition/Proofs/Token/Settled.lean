import DataCondition.Proofs.Token.Folding

/-!
# Folding without renamed words

The words `is` and `not` alone wait for the word after them and may be renamed with it. If neither
stands outside a list, folding joins operands and changes nothing else.
-/

namespace DataCondition

namespace Word

namespace Folding

/-- No word is pending that may be renamed. -/
structure IsSettled (state : Folding) : Prop where
  noCopula : state.pending ≠ .copula
  noNegation : state.pending ≠ .negation

section Step

variable {word : Text} (noCopula : word ≠ copula) (noNegation : word ≠ negation)

include noCopula noNegation

theorem isSettled_start (done : List Text) : (start done word).IsSettled := by
  unfold start
  rw [if_neg noCopula, if_neg noNegation]
  split
  · exact ⟨nofun, nofun⟩
  · exact ⟨nofun, nofun⟩

theorem isSettled_complete (done : List Text) (joined : Text) :
    (complete done joined word).IsSettled := by
  unfold complete
  split
  · exact ⟨nofun, nofun⟩
  · exact isSettled_start noCopula noNegation _

theorem IsSettled.step_free {state : Folding} (settled : state.IsSettled) :
    (state.step (.free word)).IsSettled ∧
      (state.step (.free word)).written = state.written ++ word := by
  obtain ⟨done, pending⟩ := state
  cases pending with
  | nothing => exact ⟨isSettled_start noCopula noNegation done, written_start noCopula done⟩
  | copula => exact absurd rfl settled.noCopula
  | negation => exact absurd rfl settled.noNegation
  | operand joined =>
      refine ⟨isSettled_complete noCopula noNegation done joined, ?_⟩
      rw [Folding.step, written_complete noCopula]
      simp [written, flush]

end Step

/-- The words of a list change nothing that is pending, whatever they are. -/
theorem step_listed (state : Folding) (word : Text) :
    (state.step (.listed word)).IsSettled ∧
      (state.step (.listed word)).written = state.written ++ word :=
  ⟨⟨nofun, nofun⟩, by simp [Folding.step, written, flush]⟩

/-- What is folded is written as it is if neither `is` nor `not` is free. -/
theorem IsSettled.written_foldl {state : Folding} (settled : state.IsSettled) {pieces : List Piece}
    (noCopula : .free copula ∉ pieces) (noNegation : .free negation ∉ pieces) :
    (pieces.foldl Folding.step state).written =
      state.written ++ (pieces.map Piece.word).flatten := by
  induction pieces generalizing state with
  | nil => simp
  | cons piece rest induction =>
      rw [List.mem_cons, not_or] at noCopula noNegation
      have next : (state.step piece).IsSettled ∧
          (state.step piece).written = state.written ++ piece.word := by
        cases piece with
        | listed word => exact step_listed state word
        | free word =>
            exact settled.step_free (fun same => noCopula.1 (congrArg _ same.symm))
              fun same => noNegation.1 (congrArg _ same.symm)
      rw [List.foldl_cons, induction next.1 noCopula.2 noNegation.2, next.2, List.map_cons,
        List.flatten_cons, List.append_assoc]

end Folding

theorem written_fold {pieces : List Piece} (noCopula : .free copula ∉ pieces)
    (noNegation : .free negation ∉ pieces) :
    (fold pieces).flatten = (pieces.map Piece.word).flatten := by
  have start : Folding.IsSettled ⟨[], .nothing⟩ := ⟨nofun, nofun⟩
  exact start.written_foldl noCopula noNegation

theorem free_mem_pieces {word part : Text} :
    .free part ∈ pieces word ↔ part ∈ Text.words (spaceComparisons word) := by
  simp [pieces]

mutual

/-- Outside lists, words are cut as they are in the whole text. -/
theorem mem_of_free_mem_outside {part : Text} (words : List Text)
    (member : .free part ∈ outside words) :
    part ∈ words.flatMap fun word => Text.words (spaceComparisons word) := by
  match words with
  | [] => cases member
  | [word] =>
      rw [outside, free_mem_pieces] at member
      rwa [List.flatMap_singleton]
  | word :: next :: rest =>
      rw [outside] at member
      split at member
      next opens =>
        obtain ⟨rfl, rfl⟩ := opens
        rw [List.mem_cons, List.mem_cons] at member
        rcases member with same | same | listed
        · cases same
          exact List.mem_append_left _ List.mem_cons_self
        · cases same
          exact List.mem_append_right _ (List.mem_append_left _ List.mem_cons_self)
        · exact List.mem_append_right _
            (List.mem_append_right _ (mem_of_free_mem_inside rest listed))
      next =>
        rw [List.mem_append, free_mem_pieces] at member
        rw [List.flatMap_cons, List.mem_append]
        exact member.imp_right (mem_of_free_mem_outside (next :: rest))
termination_by structural words

theorem mem_of_free_mem_inside {part : Text} (words : List Text)
    (member : .free part ∈ inside words) :
    part ∈ words.flatMap fun word => Text.words (spaceComparisons word) := by
  match words with
  | [] => cases member
  | word :: rest =>
      rw [inside] at member
      rw [List.flatMap_cons, List.mem_append]
      split at member
      next closes =>
        rcases List.mem_cons.mp member with same | later
        · cases same
          rw [closes]
          exact .inl List.mem_cons_self
        · exact .inr (mem_of_free_mem_outside rest later)
      next =>
        rcases List.mem_cons.mp member with same | later
        · cases same
        · exact .inr (mem_of_free_mem_inside rest later)
termination_by structural words

end

end Word

end DataCondition
