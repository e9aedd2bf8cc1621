import DataCondition.Proofs.Tree.Erasure

/-!
# The tests of a tree

The tests of a tree are its own, if it is one, and those of its children.
-/

namespace DataCondition

namespace Node

mutual

/-- The texts of the tests in a tree, by recursion on it. -/
def texts : Node → List Text
  | ⟨_, _, .atom text, children⟩ => text :: textsAll children
  | ⟨_, _, _, children⟩ => textsAll children

/-- The texts of the tests in a row of trees. -/
def textsAll : List Node → List Text
  | [] => []
  | node :: rest => node.texts ++ textsAll rest

end

theorem textsAll_append (left right : List Node) :
    textsAll (left ++ right) = textsAll left ++ textsAll right := by
  induction left with
  | nil => simp [textsAll]
  | cons node rest induction => simp [textsAll, induction]

/-- The test that a node is comes before those below it. -/
theorem texts_eq (node : Node) : node.texts = node.atom?.toList ++ textsAll node.children := by
  obtain ⟨id, parent, kind, children⟩ := node
  cases kind <;> rfl

@[simp]
theorem texts_under (owner : Nat) (node : Node) : (node.under owner).texts = node.texts := by
  rw [texts_eq, texts_eq node]
  rfl

theorem textsAll_map_under (owner : Nat) (row : List Node) :
    textsAll (row.map (under owner)) = textsAll row := by
  induction row with
  | nil => rfl
  | cons node rest induction => simp [textsAll, induction]

mutual

theorem filterMap_preorder : ∀ (node : Node) (depth : Nat),
    (node.preorder depth).filterMap (fun (_, part) => part.atom?) = node.texts
  | ⟨_, _, kind, children⟩, depth => by
      rw [preorder, List.filterMap_cons, filterMap_preorderAll children (depth + 1)]
      cases kind <;> rfl
termination_by structural node => node

theorem filterMap_preorderAll : ∀ (row : List Node) (depth : Nat),
    (preorderAll depth row).filterMap (fun (_, part) => part.atom?) = textsAll row
  | [], depth => by simp [preorderAll, textsAll]
  | node :: rest, depth => by
      simp [preorderAll, textsAll, filterMap_preorder node depth, filterMap_preorderAll rest depth]
termination_by structural row => row

end

theorem atoms_eq_texts (node : Node) : node.atoms = node.texts :=
  filterMap_preorder node 0

mutual

theorem texts_erased : ∀ node : Node, node.erased.texts = node.texts
  | ⟨_, _, kind, children⟩ => by
      cases kind <;> simp [erased, bare, texts, textsAll_erasedAll children]
termination_by structural node => node

theorem textsAll_erasedAll : ∀ row : List Node, textsAll (erasedAll row) = textsAll row
  | [] => by simp [textsAll]
  | node :: rest => by simp [textsAll, texts_erased node, textsAll_erasedAll rest]
termination_by structural row => row

end

/-- The tests of a tree do not hang on its numbers. -/
theorem atoms_erased (node : Node) : node.erased.atoms = node.atoms := by
  rw [atoms_eq_texts, texts_erased, atoms_eq_texts]

end Node

end DataCondition
