import DataCondition.Proofs.Condition.Tree
import DataCondition.Proofs.Grammar.Parentheses
import DataCondition.Proofs.Token.Folding

/-!
# The parentheses of accepted conditions

Groups are matched by their nesting, but a list ends at the first parenthesis that closes. What
opens inside a list is therefore never closed.
-/

namespace DataCondition

namespace Condition

open Text
open Word (FlatLists)

/--
No prefix of an accepted condition closes more parentheses than it opens. It closes all that it
opens exactly if no list has a parenthesis in it.
-/
theorem covered_and_closed_iff {condition : Text} {tree : Node}
    (accepted : Condition.tree condition = .ok tree) :
    Covered condition ∧ (Closed condition ↔ FlatLists (Condition.words condition)) := by
  obtain ⟨tokens, atoms, after, scanned, decoded, built⟩ := tree_eq_ok.mp accepted
  have consumed := consumed_of_tokens scanned
  have normal : ∀ word ∈ Condition.words condition, Word.IsNormal word :=
    fun word member => isNormal_of_mem_words member
  -- the words and the tokens have the parentheses of the condition
  have same : parentheses (Token.join tokens) = parentheses condition := by
    have kept := consumed.parentheses_eq
    rwa [List.reverse_reverse, parentheses_words] at kept
  have flat := consumed.flatLists_append normal []
  obtain ⟨-, disjunction, rfl⟩ := Grammar.exists_tokens_of_logicTree built
  have paired := disjunction.paired_tokens fun text member =>
    consumed.covered normal (List.mem_reverse.mpr member)
  constructor
  · rw [← covered_parentheses, ← same, covered_parentheses]
    exact paired.covered
  · rw [← closed_parentheses, ← same, closed_parentheses, paired.closed]
    simpa [Word.flatLists_nil] using flat.symm

/-- The list of `(a in (b))` is flat, for its parentheses are all closed. -/
theorem flatLists_of_closed :
    (∃ tree, Condition.tree "(a in (b))".toList = .ok tree) ∧ Covered "(a in (b))".toList ∧
      FlatLists (Condition.words "(a in (b))".toList) := by
  have accepted : Condition.tree "(a in (b))".toList = .ok ⟨0, none, .root,
      [⟨3, some 0, .disjunct, [⟨2, some 3, .atom "a in (b)".toList, []⟩]⟩]⟩ :=
    Error.eq_ok_of_toOption (by decide +kernel)
  obtain ⟨covered, closed⟩ := covered_and_closed_iff accepted
  exact ⟨⟨_, accepted⟩, covered, closed.mp (by decide +kernel)⟩

/-- The condition `a in ((b)` is accepted, although one of its parentheses is never closed. -/
theorem accepted_unclosed :
    (∃ tree, Condition.tree "a in ((b)".toList = .ok tree) ∧ ¬ Closed "a in ((b)".toList :=
  ⟨⟨⟨firstId, none, .atom "a in (( b)".toList, []⟩,
    Error.eq_ok_of_toOption (by decide +kernel)⟩, by decide +kernel⟩

end Condition

end DataCondition
