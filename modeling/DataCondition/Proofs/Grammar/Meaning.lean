import DataCondition.Proofs.Grammar.LogicTree
import DataCondition.Proofs.Tree.Truth

/-!
# The truth of tokens and of their logic tree

Gathering disjuncts and conjunctions, splicing groups and dropping connectives do not change what a
condition says: its logic tree is true exactly if its derivation is.
-/

namespace DataCondition

namespace Token

/-- Tokens have a truth value by the grammar: that of a disjunction which they make up. -/
def HasValue (truth : Text → Bool) (tokens : List Token) (value : Bool) : Prop :=
  ∃ disjunction : Grammar.Disjunction,
    disjunction.tokens = tokens ∧ disjunction.value truth = value

end Token

namespace Grammar

variable (truth : Text → Bool)

theorem holds_testNode (text : Text) : (testNode text).holds truth = truth text := by
  simp [testNode, Node.bare, Node.holds]

mutual

theorem Disjunction.someHolds_alternatives : ∀ disjunction : Disjunction,
    Node.someHolds truth disjunction.alternatives = disjunction.value truth
  | .last conjunction => Conjunction.someHolds_alternatives conjunction
  | .or first later => by
      simp [Disjunction.alternatives, Disjunction.value, Node.someHolds_append,
        Conjunction.someHolds_alternatives first, Disjunction.someHolds_alternatives later]

/-- A spliced group stands for its inside, as a disjunct stands for its conjunction. -/
theorem Conjunction.someHolds_alternatives : ∀ conjunction : Conjunction,
    Node.someHolds truth conjunction.alternatives = conjunction.value truth
  | .last (.test text) => by
      simp [Conjunction.alternatives, Conjunction.value, Term.value, Node.bare, Node.someHolds,
        Node.holds, Node.allHold, holds_testNode]
  | .last (.group inner) => Disjunction.someHolds_alternatives inner
  | .and first later => by
      simp [Conjunction.alternatives, Conjunction.value, Node.bare, Node.someHolds, Node.holds,
        Node.allHold, Term.holds_operand first, Conjunction.allHold_operands later]

theorem Conjunction.allHold_operands : ∀ conjunction : Conjunction,
    Node.allHold truth conjunction.operands = conjunction.value truth
  | .last term => by
      simp [Conjunction.operands, Conjunction.value, Node.allHold, Term.holds_operand term]
  | .and first later => by
      simp [Conjunction.operands, Conjunction.value, Node.allHold, Term.holds_operand first,
        Conjunction.allHold_operands later]

theorem Term.holds_operand : ∀ term : Term, term.operand.holds truth = term.value truth
  | .test text => holds_testNode truth text
  | .group inner => by
      simp [Term.operand, Term.value, Node.bare, Node.holds,
        Disjunction.someHolds_alternatives inner]

end

/-- The logic tree of a derivation is as true as the derivation. -/
theorem Disjunction.holds_tree (disjunction : Disjunction) :
    disjunction.tree.holds truth = disjunction.value truth := by
  by_cases alone : ∃ text, disjunction = .test text
  · obtain ⟨text, rfl⟩ := alone
    exact holds_testNode truth text
  · rw [Disjunction.tree_of_ne_test (by simpa using alone), Node.bare, Node.holds]
    exact disjunction.someHolds_alternatives truth

end Grammar

namespace Node

/-- Tokens have one truth value by the grammar, and it is that of their logic tree. -/
theorem hasValue_iff_holds {tokens : List Token} {next after : UInt32} {tree : Node}
    (built : (logicTree tokens).run next = .ok (tree, after)) (truth : Text → Bool)
    (value : Bool) : Token.HasValue truth tokens value ↔ tree.holds truth = value := by
  have same : ∀ disjunction : Grammar.Disjunction, disjunction.tokens = tokens →
      tree.holds truth = disjunction.value truth := by
    rintro disjunction rfl
    have within := (Grammar.exists_tokens_of_logicTree built).1
    obtain ⟨found, stop, run, shape⟩ := disjunction.logicTree_tokens within next
    obtain ⟨rfl, rfl⟩ : found = tree ∧ stop = after := by
      simpa using run.symm.trans built
    rw [← holds_erased, shape, disjunction.holds_tree]
  constructor
  · rintro ⟨disjunction, spelled, rfl⟩
    exact same disjunction spelled
  · intro held
    obtain ⟨disjunction, spelled⟩ := (Grammar.exists_tokens_of_logicTree built).2
    exact ⟨disjunction, spelled, (same disjunction spelled).symm.trans held⟩

/-- In `(a or b) and c` the parentheses decide: without `c` it is false. -/
theorem hasValue_group_and :
    let tokens : List Token := [.opening, .atom ['a'], .connective .or, .atom ['b'], .closing,
      .connective .and, .atom ['c']]
    let truth : Text → Bool := fun text => text ≠ ['c']
    (∃ tree after, (logicTree tokens).run 1 = .ok (tree, after) ∧ tree.holds truth = false) ∧
      Token.HasValue truth tokens false := by
  refine ⟨⟨_, _, rfl, rfl⟩, ?_⟩
  exact (@hasValue_iff_holds _ 1 _ _ rfl _ false).mpr rfl

end Node

end DataCondition
