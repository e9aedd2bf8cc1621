import DataCondition.Proofs.Condition.Atoms
import DataCondition.Proofs.Grammar.NormalForms
import DataCondition.Proofs.Tree.Height

/-!
# How high the trees of conditions are

However long a condition is, its tree is not high, and neither are the trees on the way to it.
-/

namespace DataCondition

namespace Condition

open Token (nesting)

/--
The parentheses of an accepted condition nest at most 256 deep, and its tree is at most three levels
high for each of them and three more. The trees that the stages pass on are still lower.
-/
theorem height_of_tree {condition : Text} {tree : Node}
    (accepted : Condition.tree condition = .ok tree) :
    ∃ tokens, Condition.tokens condition = .ok tokens ∧ nesting tokens ≤ 256 ∧
      tree.height ≤ 3 * (nesting tokens + 1) ∧ tree.height ≤ 771 ∧
      ∃ nested disjoined middle later after,
        (Node.ofTokens tokens).run firstId = .ok (nested, middle) ∧
        (Node.gatherDisjuncts nested).run middle = .ok (disjoined, later) ∧
        (Node.gatherConjunctions disjoined).run later = .ok (tree, after) ∧
        nested.height ≤ nesting tokens + 1 ∧ disjoined.height ≤ 2 * (nesting tokens + 1) := by
  obtain ⟨tokens, atoms, after, scanned, -, built⟩ := tree_eq_ok.mp accepted
  obtain ⟨nested, middle, nested_run, passes⟩ := Numbering.bind_eq_ok.mp built
  obtain ⟨disjoined, later, disjoined_run, conjoined_run⟩ := Numbering.bind_eq_ok.mp passes
  have shallow : nesting tokens ≤ 256 := Node.nesting_le_of_ofTokens nested_run
  have high : tree.height ≤ 3 * (nesting tokens + 1) := by
    have levels := Node.height_le_of_shaped (isCanonical_of_tree accepted).shaped
    have few := tree.kind.levels_le
    have deep := Node.groupDepth_le_of_logicTree built
    omega
  have low := Node.height_le_of_ofTokens nested_run
  have doubled := Node.height_le_of_gatherDisjuncts disjoined_run
  exact ⟨tokens, scanned, shallow, high, by omega, nested, disjoined, middle, later, after,
    nested_run, disjoined_run, conjoined_run, low, by omega⟩

/-- The tree of `a > 1 and (b < 2 and c = 3)` is as high as its parentheses allow. -/
theorem height_of_tree_nested :
    let condition := "a > 1 and (b < 2 and c = 3)".toList
    let group : Node := ⟨3, some 9, .group, [⟨8, some 3, .disjunct, [⟨10, some 8, .conjunction, [
      ⟨4, some 10, .atom "b<2".toList, []⟩, ⟨6, some 10, .atom "c=3".toList, []⟩]⟩]⟩]⟩
    let tree : Node := ⟨0, none, .root, [⟨7, some 0, .disjunct, [⟨9, some 7, .conjunction, [
      ⟨1, some 9, .atom "a>1".toList, []⟩, group]⟩]⟩]⟩
    Condition.tree condition = .ok tree ∧ tree.height = 6 ∧
      ∃ tokens, Condition.tokens condition = .ok tokens ∧ nesting tokens = 1 ∧
        tree.height ≤ 3 * (nesting tokens + 1) := by
  intro condition group tree
  have accepted : Condition.tree condition = .ok tree :=
    Error.eq_ok_of_toOption (by decide +kernel)
  have scanned : Condition.tokens condition = .ok [.atom "a>1".toList, .connective .and, .opening,
      .atom "b<2".toList, .connective .and, .atom "c=3".toList, .closing] :=
    Error.eq_ok_of_toOption (by decide +kernel)
  obtain ⟨tokens, found, -, high, -⟩ := height_of_tree accepted
  obtain rfl := Except.ok.inj (found.symm.trans scanned)
  exact ⟨accepted, rfl, _, scanned, rfl, high⟩

end Condition

end DataCondition
