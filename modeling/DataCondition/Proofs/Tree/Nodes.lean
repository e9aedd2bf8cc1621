import Mathlib.Data.List.Basic
import DataCondition.Proofs.Tree.Erasure

/-!
# The nodes of a tree

A tree is read as the row of its nodes, from left to right and owners first. What holds throughout a
tree, and what is counted or numbered in it, is then said of that row.
-/

namespace DataCondition

namespace Node

/-- What every node has if its children have it holds of all trees. -/
@[elab_as_elim]
theorem induction {motive : Node → Prop}
    (step : ∀ id parent kind children, (∀ child ∈ children, motive child) →
      motive ⟨id, parent, kind, children⟩) (node : Node) : motive node :=
  @Node.rec motive (fun row => ∀ child ∈ row, motive child) step (List.forall_mem_nil _)
    (fun _ _ first others => List.forall_mem_cons.mpr ⟨first, others⟩) node

/-- The node and all nodes below it, from left to right and owners first. -/
def nodes (node : Node) : List Node := (node.preorder 0).map Prod.snd

/-- Nodes with their depths, counted from a node that is itself so deep. -/
def lowered (depth : Nat) (rows : List (Nat × Node)) : List (Nat × Node) :=
  rows.map fun (below, node) => (depth + below, node)

theorem preorder_add (depth start : Nat) (node : Node) :
    node.preorder (depth + start) = lowered depth (node.preorder start) := by
  induction node using Node.induction generalizing start with
  | step id parent kind children induction =>
      rw [preorder_eq, preorder_eq start, lowered, List.map_cons, List.map_flatMap]
      congr 1
      exact List.flatMap_congr fun child member => induction child member (start + 1)

/-- The order of the nodes does not hang on the depth that they are counted from. -/
theorem map_preorder (node : Node) (depth : Nat) :
    (node.preorder depth).map Prod.snd = node.nodes := by
  rw [← Nat.add_zero depth, preorder_add, lowered, List.map_map]
  rfl

/-- The nodes below a node are those of its children. -/
theorem nodes_eq (node : Node) : node.nodes = node :: node.children.flatMap nodes := by
  rw [nodes, preorder_eq, List.map_cons, List.map_flatMap]
  congr 1
  exact List.flatMap_congr fun child _ => map_preorder child 1

mutual

theorem length_nodes : ∀ node : Node, node.nodes.length = 1 + node.size
  | ⟨_, _, _, children⟩ => by
      rw [nodes_eq, List.length_cons, length_flatMap_nodes children, size, Nat.add_comm]
termination_by structural node => node

/-- A row of trees has as many nodes as its size says. -/
theorem length_flatMap_nodes : ∀ row : List Node, (row.flatMap nodes).length = sizeAll row
  | [] => rfl
  | node :: rest => by
      rw [List.flatMap_cons, List.length_append, length_nodes node, length_flatMap_nodes rest,
        sizeAll]
termination_by structural row => row

end

mutual

/-- A node that is not the top stands among the children of a node. -/
theorem exists_owner : ∀ tree : Node, ∀ node ∈ tree.children.flatMap nodes,
    ∃ owner ∈ tree.nodes, node ∈ owner.children
  | ⟨id, parent, kind, children⟩, node, below => by
      rw [nodes_eq]
      rcases mem_or_exists_owner children node below with child | ⟨owner, inside, child⟩
      · exact ⟨_, List.mem_cons_self, child⟩
      · exact ⟨owner, List.mem_cons_of_mem _ inside, child⟩
termination_by structural tree => tree

theorem mem_or_exists_owner : ∀ row : List Node, ∀ node ∈ row.flatMap nodes,
    node ∈ row ∨ ∃ owner ∈ row.flatMap nodes, node ∈ owner.children
  | [], _, member => by simp at member
  | top :: rest, node, member => by
      simp only [List.flatMap_cons, List.mem_append] at member ⊢
      rcases member with inside | later
      · rw [nodes_eq, List.mem_cons] at inside
        rcases inside with rfl | below
        · exact .inl List.mem_cons_self
        · obtain ⟨owner, found, child⟩ := exists_owner top node below
          exact .inr ⟨owner, .inl found, child⟩
      · rcases mem_or_exists_owner rest node later with here | ⟨owner, found, child⟩
        · exact .inl (List.mem_cons_of_mem _ here)
        · exact .inr ⟨owner, .inr found, child⟩
termination_by structural row => row

end

theorem children_erased (node : Node) : node.erased.children = node.children.map erased := by
  obtain ⟨id, parent, kind, children⟩ := node
  exact erasedAll_eq_map children

mutual

theorem nodes_erased : ∀ node : Node, node.erased.nodes = node.nodes.map erased
  | ⟨id, parent, kind, children⟩ => by
      rw [nodes_eq, nodes_eq, children_erased, List.map_cons, flatMap_nodes_map_erased children]
termination_by structural node => node

theorem flatMap_nodes_map_erased : ∀ row : List Node,
    (row.map erased).flatMap nodes = (row.flatMap nodes).map erased
  | [] => rfl
  | node :: rest => by
      simp [nodes_erased node, flatMap_nodes_map_erased rest]
termination_by structural row => row

end

end Node

end DataCondition
