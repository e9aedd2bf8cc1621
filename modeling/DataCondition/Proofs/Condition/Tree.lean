import DataCondition.Proofs.Grammar.Atoms

/-!
# What it takes to have a tree

A condition has a tree if it has tokens, its tests decode and its tokens have a logic tree.
-/

namespace DataCondition

namespace Atom

theorem ofTexts_singleton (text : Text) :
    ofTexts [text] = (ofText text).map fun atom => [atom] := by
  rw [ofTexts, List.mapM_cons, List.mapM_nil]
  cases ofText text <;> rfl

/-- A row of texts decodes to the atoms of its texts, in order. -/
theorem ofTexts_eq_ok {texts : List Text} {atoms : List Atom} :
    ofTexts texts = .ok atoms ↔
      List.Forall₂ (fun text atom => ofText text = .ok atom) texts atoms :=
  Error.mapM_eq_ok

end Atom

namespace Condition

theorem tree_eq_ok {condition : Text} {tree : Node} :
    Condition.tree condition = .ok tree ↔ ∃ tokens atoms after,
      Condition.tokens condition = .ok tokens ∧
      Atom.ofTexts (tokens.filterMap Token.atom?) = .ok atoms ∧
      (Node.logicTree tokens).run firstId = .ok (tree, after) := by
  unfold Condition.tree
  constructor
  · intro accepted
    obtain ⟨tokens, scanned, rest⟩ := Error.bind_eq_ok.mp accepted
    obtain ⟨atoms, decoded, rest⟩ := Error.bind_eq_ok.mp rest
    obtain ⟨⟨node, after⟩, built, last⟩ := Error.bind_eq_ok.mp rest
    obtain rfl := Except.ok.inj last
    exact ⟨tokens, atoms, after, scanned, decoded, built⟩
  · rintro ⟨tokens, atoms, after, scanned, decoded, built⟩
    refine Error.bind_eq_ok.mpr ⟨tokens, scanned, Error.bind_eq_ok.mpr ⟨atoms, decoded, ?_⟩⟩
    exact Error.bind_eq_ok.mpr ⟨(tree, after), built, rfl⟩

/-- The tests of a condition's tree are those of its tokens, and all of them decode. -/
theorem readAtoms_of_tree {condition : Text} {tree : Node}
    (accepted : Condition.tree condition = .ok tree) :
    ∃ tokens atoms, Condition.tokens condition = .ok tokens ∧
      tree.atoms = tokens.filterMap Token.atom? ∧ tree.readAtoms = .ok atoms := by
  obtain ⟨tokens, atoms, after, scanned, decoded, built⟩ := tree_eq_ok.mp accepted
  have same := Node.atoms_of_logicTree built
  exact ⟨tokens, atoms, scanned, same, by rw [Node.readAtoms, same, decoded]⟩

/-- A condition with one test has a lone test as its tree, if the test decodes. -/
theorem tree_of_atom {condition text : Text} (single : tokens condition = .ok [.atom text]) :
    Condition.tree condition =
      (Atom.ofText text).map fun _ => ⟨firstId, none, .atom text, []⟩ := by
  rw [Condition.tree, single]
  change (Atom.ofTexts [text] >>= fun _ => _) = _
  rw [Atom.ofTexts_singleton]
  cases Atom.ofText text <;> rfl

end Condition

end DataCondition
