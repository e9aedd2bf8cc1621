import DataCondition.Proofs.Condition.Tree
import DataCondition.Proofs.Grammar.Shape
import DataCondition.Tree.Walk

/-!
# The tests of accepted conditions

The tree of a condition has the tests of its tokens, however it is walked, and all of them decode.
-/

namespace DataCondition

/-- A walk from the top of a tree meets its tests in order. -/
theorem Walk.filterMap_toList_start (tree : Node) :
    (Walk.start tree).toList.filterMap (fun (_, node) => node.atom?) = tree.atoms := by
  rw [Walk.toList_eq, Walk.start, List.flatMap_singleton]
  rfl

namespace Condition

/-- The tree of an accepted condition is in canonical form. -/
theorem isCanonical_of_tree {condition : Text} {tree : Node}
    (accepted : Condition.tree condition = .ok tree) : tree.IsCanonical := by
  obtain ⟨tokens, atoms, after, -, -, built⟩ := tree_eq_ok.mp accepted
  exact Node.canonical_of_logicTree built

/--
The tree of an accepted condition has the tests of its tokens, in order, and so has a walk through
it. They decode in this order to one atom each, and nothing is below a test.
-/
theorem atoms_of_tree {condition : Text} {tree : Node}
    (accepted : Condition.tree condition = .ok tree) :
    ∃ tokens atoms, Condition.tokens condition = .ok tokens ∧
      tree.atoms = tokens.filterMap Token.atom? ∧
      (Walk.start tree).toList.filterMap (fun (_, node) => node.atom?) = tree.atoms ∧
      tree.readAtoms = .ok atoms ∧
      List.Forall₂ (fun text atom => Atom.ofText text = .ok atom)
        (tokens.filterMap Token.atom?) atoms ∧
      ∀ node ∈ tree.nodes, node.isAtom → node.children = [] := by
  obtain ⟨tokens, atoms, scanned, same, decoded⟩ := readAtoms_of_tree accepted
  have single : List.Forall₂ (fun text atom => Atom.ofText text = .ok atom)
      (tokens.filterMap Token.atom?) atoms := by
    rw [← same]
    exact Atom.ofTexts_eq_ok.mp decoded
  have shaped := (isCanonical_of_tree accepted).shaped
  exact ⟨tokens, atoms, scanned, same, Walk.filterMap_toList_start tree, decoded, single,
    fun node member test => (shaped node member).children_of_isAtom test⟩

/-- The three tests of `a > 1 and (b < 2 or c in (d))` are those of its tree, and they decode. -/
theorem atoms_of_tree_and_group :
    ∃ tree atoms, Condition.tree "a > 1 and (b < 2 or c in (d))".toList = .ok tree ∧
      tree.atoms = ["a>1".toList, "b<2".toList, "c in (d)".toList] ∧
      tree.readAtoms = .ok atoms ∧
      List.Forall₂ (fun text atom => Atom.ofText text = .ok atom) tree.atoms atoms := by
  let group : Node := ⟨3, some 10, .group, [
    ⟨8, some 3, .disjunct, [⟨4, some 8, .atom "b<2".toList, []⟩]⟩,
    ⟨9, some 3, .disjunct, [⟨6, some 9, .atom "c in (d)".toList, []⟩]⟩]⟩
  have accepted : Condition.tree "a > 1 and (b < 2 or c in (d))".toList = .ok ⟨0, none, .root,
      [⟨7, some 0, .disjunct, [⟨10, some 7, .conjunction,
        [⟨1, some 10, .atom "a>1".toList, []⟩, group]⟩]⟩]⟩ :=
    Error.eq_ok_of_toOption (by decide +kernel)
  obtain ⟨tokens, atoms, -, same, -, decoded, single, -⟩ := atoms_of_tree accepted
  rw [← same] at single
  exact ⟨_, atoms, accepted, rfl, decoded, single⟩

end Condition

end DataCondition
