import DataCondition.Proofs.Grammar.LogicTree

/-!
# The tokens that have a logic tree

The stages accept the grammar, with parentheses nested up to the limit, and nothing else.
-/

namespace DataCondition

namespace Grammar

mutual

/-- The nesting of a derivation is seen in its tokens, whatever is around them. -/
theorem Disjunction.deepest_tokens (depth : Nat) (later : List Token) :
    ∀ disjunction : Disjunction, Token.deepest depth (disjunction.tokens ++ later) =
      max (depth + disjunction.depth) (Token.deepest depth later)
  | .last conjunction => Conjunction.deepest_tokens depth later conjunction
  | .or first others => by
      have front := Conjunction.deepest_tokens depth
        (.connective .or :: (others.tokens ++ later)) first
      have back := Disjunction.deepest_tokens depth later others
      simp only [Disjunction.tokens, Disjunction.depth, List.append_assoc, List.cons_append, front,
        Token.deepest, back]
      omega

theorem Conjunction.deepest_tokens (depth : Nat) (later : List Token) :
    ∀ conjunction : Conjunction, Token.deepest depth (conjunction.tokens ++ later) =
      max (depth + conjunction.depth) (Token.deepest depth later)
  | .last term => Term.deepest_tokens depth later term
  | .and first others => by
      have front := Term.deepest_tokens depth (.connective .and :: (others.tokens ++ later)) first
      have back := Conjunction.deepest_tokens depth later others
      simp only [Conjunction.tokens, Conjunction.depth, List.append_assoc, List.cons_append, front,
        Token.deepest, back]
      omega

theorem Term.deepest_tokens (depth : Nat) (later : List Token) :
    ∀ term : Term, Token.deepest depth (term.tokens ++ later) =
      max (depth + term.depth) (Token.deepest depth later)
  | .test _ => by
      have reached := Token.le_deepest depth later
      simp only [Term.tokens, Term.depth, List.cons_append, List.nil_append, Token.deepest]
      omega
  | .group inner => by
      have inside := Disjunction.deepest_tokens (depth + 1) (.closing :: later) inner
      simp only [Term.tokens, Term.depth, List.append_assoc, List.cons_append, List.nil_append,
        Token.deepest, inside, Nat.add_sub_cancel]
      omega

end

/-- The parentheses of tokens nest as those of their derivation do. -/
theorem Disjunction.nesting_tokens (disjunction : Disjunction) :
    Token.nesting disjunction.tokens = disjunction.depth := by
  have whole := disjunction.deepest_tokens 0 []
  simpa [Token.nesting, Token.deepest] using whole

end Grammar

namespace Node

/-- Tokens have a logic tree exactly if they are a disjunction that nests at most 256 deep. -/
theorem logicTree_succeeds_iff (tokens : List Token) (next : UInt32) :
    (∃ tree after, (logicTree tokens).run next = .ok (tree, after)) ↔
      ∃ disjunction : Grammar.Disjunction,
        disjunction.tokens = tokens ∧ disjunction.depth ≤ 256 := by
  constructor
  · rintro ⟨tree, after, built⟩
    obtain ⟨within, disjunction, rfl⟩ := Grammar.exists_tokens_of_logicTree built
    rw [disjunction.nesting_tokens] at within
    exact ⟨disjunction, rfl, within⟩
  · rintro ⟨disjunction, rfl, within⟩
    rw [← disjunction.nesting_tokens] at within
    obtain ⟨tree, after, built, -⟩ := disjunction.logicTree_tokens within next
    exact ⟨tree, after, built⟩

end Node

end DataCondition
