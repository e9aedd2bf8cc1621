import DataCondition.Proofs.Tree.Erasure

/-!
# Logic trees as tokens

A logic tree is written as tokens by `or` between the disjuncts of a row, `and` between the operands
of a conjunction, and parentheses around groups.
-/

namespace DataCondition

namespace Node

mutual

/-- The tokens of a logic tree. -/
def tokens : Node → List Token
  | ⟨_, _, kind, children⟩ =>
    match kind with
    | .atom text => [.atom text]
    | .connective link => [.connective link]
    | .group => .opening :: joinedTokens .or children ++ [.closing]
    | .root => joinedTokens .or children
    | .disjunct | .conjunction => joinedTokens .and children

/-- The tokens of a row of trees, with a connective between any two of them. -/
def joinedTokens (link : Connective) : List Node → List Token
  | [] => []
  | [node] => node.tokens
  | node :: next :: rest => node.tokens ++ .connective link :: joinedTokens link (next :: rest)

end

mutual

/-- How deep the groups of a tree nest. -/
def groupDepth : Node → Nat
  | ⟨_, _, kind, children⟩ => groupDepthAll children + if kind = .group then 1 else 0

/-- How deep the groups of a row of trees nest. -/
def groupDepthAll : List Node → Nat
  | [] => 0
  | node :: rest => max node.groupDepth (groupDepthAll rest)

end

theorem joinedTokens_cons (link : Connective) (node : Node) {rest : List Node}
    (more : rest ≠ []) :
    joinedTokens link (node :: rest) =
      node.tokens ++ .connective link :: joinedTokens link rest := by
  obtain ⟨next, others, rfl⟩ := List.exists_cons_of_ne_nil more
  rw [joinedTokens]

theorem groupDepthAll_append (left right : List Node) :
    groupDepthAll (left ++ right) = max (groupDepthAll left) (groupDepthAll right) := by
  induction left with
  | nil => simp [groupDepthAll]
  | cons node rest induction => simp [groupDepthAll, induction, Nat.max_assoc]

mutual

/-- The tokens of a tree do not hang on its numbers. -/
theorem tokens_erased : ∀ node : Node, node.erased.tokens = node.tokens
  | ⟨_, _, kind, children⟩ => by
      cases kind <;> simp [erased, bare, tokens, joinedTokens_erasedAll]

theorem joinedTokens_erasedAll (link : Connective) : ∀ row : List Node,
    joinedTokens link (erasedAll row) = joinedTokens link row
  | [] => by simp
  | [node] => by simp [joinedTokens, tokens_erased node]
  | node :: next :: rest => by
      have later := joinedTokens_erasedAll link (next :: rest)
      rw [erasedAll_cons] at later
      simp [joinedTokens, tokens_erased node, later]

end

mutual

theorem groupDepth_erased : ∀ node : Node, node.erased.groupDepth = node.groupDepth
  | ⟨_, _, kind, children⟩ => by
      simp [erased, bare, groupDepth, groupDepthAll_erasedAll children]

theorem groupDepthAll_erasedAll : ∀ row : List Node,
    groupDepthAll (erasedAll row) = groupDepthAll row
  | [] => by simp
  | node :: rest => by
      simp [groupDepthAll, groupDepth_erased node, groupDepthAll_erasedAll rest]

end

end Node

end DataCondition
