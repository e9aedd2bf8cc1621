import DataCondition.Proofs.Tree.Nodes

/-!
# The shape of a logic tree

What may stand below a node hangs on its kind alone. A tree is in canonical form if all its nodes
are so, and if it is a lone test or stands under a root.
-/

namespace DataCondition

namespace Node

/-- Whether the children of a node are those that its kind calls for. -/
def IsShaped (node : Node) : Prop :=
  match node.kind with
  | .atom _ => node.children = []
  | .root | .group => node.children ≠ [] ∧ ∀ child ∈ node.children, child.kind = .disjunct
  | .disjunct =>
    ∃ member, node.children = [member] ∧ (member.isAtom ∨ member.kind = .conjunction)
  | .conjunction =>
    2 ≤ node.children.length ∧ ∀ operand ∈ node.children, operand.isAtom ∨ operand.kind = .group
  | .connective _ => False

/-- A lone test or a root, below which every node has the children that its kind calls for. -/
structure IsCanonical (tree : Node) : Prop where
  top : (tree.isAtom ∧ tree.isRoot) ∨ tree.kind = .root
  shaped : ∀ node ∈ tree.nodes, node.IsShaped

@[simp]
theorem isAtom_erased (node : Node) : node.erased.isAtom = node.isAtom := by
  simp [isAtom, atom?]

theorem kind_of_isAtom {node : Node} (test : node.isAtom) : ∃ text, node.kind = .atom text := by
  unfold isAtom atom? at test
  split at test
  next text kind => exact ⟨text, kind⟩
  next => cases test

/-- The shape of a node does not hang on its number. -/
theorem isShaped_erased (node : Node) : node.erased.IsShaped ↔ node.IsShaped := by
  unfold IsShaped
  rw [kind_erased, children_erased]
  cases node.kind with
  | disjunct =>
      constructor
      · rintro ⟨member, alone, allowed⟩
        obtain ⟨child, children, rfl⟩ := List.map_eq_singleton_iff.mp alone
        exact ⟨child, children, by simpa using allowed⟩
      · rintro ⟨member, alone, allowed⟩
        exact ⟨member.erased, by simp [alone], by simpa using allowed⟩
  | _ => simp

theorem shaped_erased {tree : Node} :
    (∀ node ∈ tree.erased.nodes, node.IsShaped) ↔ ∀ node ∈ tree.nodes, node.IsShaped := by
  simp [nodes_erased, isShaped_erased]

theorem IsShaped.kind_ne_connective {node : Node} (shaped : node.IsShaped) (link : Connective) :
    node.kind ≠ .connective link := by
  intro kind
  rwa [IsShaped, kind] at shaped

/-- Nothing is below a test. -/
theorem IsShaped.children_of_isAtom {node : Node} (shaped : node.IsShaped) (test : node.isAtom) :
    node.children = [] := by
  obtain ⟨text, kind⟩ := kind_of_isAtom test
  rwa [IsShaped, kind] at shaped

/-- Which kinds of nodes stand below which. -/
theorem IsShaped.child_cases {node child : Node} (shaped : node.IsShaped)
    (member : child ∈ node.children) :
    (node.kind = .root ∨ node.kind = .group) ∧ child.kind = .disjunct ∨
      node.kind = .disjunct ∧ (child.isAtom ∨ child.kind = .conjunction) ∨
      node.kind = .conjunction ∧ (child.isAtom ∨ child.kind = .group) := by
  unfold IsShaped at shaped
  split at shaped
  next => simp [shaped] at member
  next kind => exact .inl ⟨.inl kind, shaped.2 child member⟩
  next kind => exact .inl ⟨.inr kind, shaped.2 child member⟩
  next kind =>
    obtain ⟨sole, children, allowed⟩ := shaped
    obtain rfl : child = sole := by simpa [children] using member
    exact .inr (.inl ⟨kind, allowed⟩)
  next kind => exact .inr (.inr ⟨kind, shaped.2 child member⟩)
  next => exact shaped.elim

section Child

variable {node child : Node} (shaped : node.IsShaped) (member : child ∈ node.children)

include shaped member

/-- Roots stand below nothing. -/
theorem IsShaped.kind_ne_root : child.kind ≠ .root := by
  intro isRoot
  have allowed := shaped.child_cases member
  simp [isAtom, atom?, isRoot] at allowed

/-- Groups stand below conjunctions only. -/
theorem IsShaped.kind_of_group (isGroup : child.kind = .group) : node.kind = .conjunction := by
  have allowed := shaped.child_cases member
  simpa [isAtom, atom?, isGroup] using allowed

/-- Conjunctions stand below disjuncts only. -/
theorem IsShaped.kind_of_conjunction (joined : child.kind = .conjunction) :
    node.kind = .disjunct := by
  have allowed := shaped.child_cases member
  simpa [isAtom, atom?, joined] using allowed

end Child

end Node

end DataCondition
