import DataCondition.Proofs.Tree.Nodes
import DataCondition.Token.Basic

/-!
# The numbers of a tree

Numbers are looked up in the row of a tree's nodes: those of one kind, and those of the tests and
groups with the tokens that these come from. A tree is linked if every node names its owner.
-/

namespace DataCondition

namespace Node

/-- What `pick` finds at the nodes of a row of trees. -/
def picked {α : Type} (pick : Node → Option α) (row : List Node) : List α :=
  (row.flatMap nodes).filterMap pick

/-- The number of a node, if it is of this kind. -/
def numberOf? (kind : Node.Kind) (node : Node) : Option Nat :=
  if node.kind = kind then some node.id else none

/-- The numbers of the nodes of one kind, from left to right and owners first. -/
def numbersOf (kind : Node.Kind) (row : List Node) : List Nat := picked (numberOf? kind) row

/-- The number of a test or group, with the token that it comes from. -/
def source? (node : Node) : Option (Nat × Token) :=
  match node.kind with
  | .atom text => some (node.id, .atom text)
  | .group => some (node.id, .opening)
  | _ => none

/-- The numbers of the tests and groups, from left to right and owners first, with their tokens. -/
def sources (row : List Node) : List (Nat × Token) := picked source? row

/-- Every node below the top names the node that owns it. -/
def IsLinked (tree : Node) : Prop :=
  ∀ node ∈ tree.nodes, ∀ child ∈ node.children, child.parent = some node.id

/-- All trees of a row are linked and name the same owner. -/
def AreOwned (owner : Nat) (row : List Node) : Prop :=
  ∀ node ∈ row, node.parent = some owner ∧ node.IsLinked

section Picked

variable {α : Type} (pick : Node → Option α)

theorem picked_cons (node : Node) (rest : List Node) :
    picked pick (node :: rest) =
      (pick node).toList ++ picked pick node.children ++ picked pick rest := by
  cases found : pick node <;> simp [picked, nodes_eq, found]

theorem picked_append (left right : List Node) :
    picked pick (left ++ right) = picked pick left ++ picked pick right := by
  simp [picked]

theorem picked_map_under (same : ∀ owner node, pick (under owner node) = pick node)
    (owner : Nat) (row : List Node) : picked pick (row.map (under owner)) = picked pick row := by
  induction row with
  | nil => rfl
  | cons node rest induction =>
      simp only [List.map_cons, picked_cons, induction, same]
      rfl

end Picked

@[simp]
theorem numbersOf_nil (kind : Node.Kind) : numbersOf kind [] = [] := rfl

@[simp]
theorem numbersOf_cons (kind : Node.Kind) (node : Node) (rest : List Node) :
    numbersOf kind (node :: rest) =
      (numberOf? kind node).toList ++ numbersOf kind node.children ++ numbersOf kind rest :=
  picked_cons _ node rest

@[simp]
theorem numbersOf_append (kind : Node.Kind) (left right : List Node) :
    numbersOf kind (left ++ right) = numbersOf kind left ++ numbersOf kind right :=
  picked_append _ left right

@[simp]
theorem sources_nil : sources [] = [] := rfl

@[simp]
theorem sources_cons (node : Node) (rest : List Node) :
    sources (node :: rest) = (source? node).toList ++ sources node.children ++ sources rest :=
  picked_cons _ node rest

@[simp]
theorem sources_append (left right : List Node) :
    sources (left ++ right) = sources left ++ sources right :=
  picked_append _ left right

@[simp]
theorem numbersOf_map_under (kind : Node.Kind) (owner : Nat) (row : List Node) :
    numbersOf kind (row.map (under owner)) = numbersOf kind row :=
  picked_map_under _ (fun _ _ => rfl) owner row

@[simp]
theorem sources_map_under (owner : Nat) (row : List Node) :
    sources (row.map (under owner)) = sources row :=
  picked_map_under _ (fun _ _ => rfl) owner row

/-- The nodes of a logic tree below its root are sources, disjuncts and conjunctions. -/
theorem map_id_perm {row : List Node}
    (kinds : ∀ node ∈ row, node.kind ≠ .root ∧ ∀ link, node.kind ≠ .connective link) :
    (row.map id).Perm ((row.filterMap source?).map Prod.fst ++
      row.filterMap (numberOf? .disjunct) ++ row.filterMap (numberOf? .conjunction)) := by
  induction row with
  | nil => exact .nil
  | cons node rest induction =>
      obtain ⟨⟨notRoot, notLink⟩, others⟩ := List.forall_mem_cons.mp kinds
      have later := (induction others).cons node.id
      cases kind : node.kind with
      | root => exact absurd kind notRoot
      | connective link => exact absurd kind (notLink link)
      | atom text => simpa [source?, numberOf?, kind] using later
      | group => simpa [source?, numberOf?, kind] using later
      | disjunct =>
          rw [List.append_assoc] at later
          simpa [source?, numberOf?, kind] using later.trans List.perm_middle.symm
      | conjunction =>
          simpa [source?, numberOf?, kind] using later.trans List.perm_middle.symm

/-- A tree is linked if its children name it and are linked themselves. -/
theorem isLinked_iff {tree : Node} : tree.IsLinked ↔ AreOwned tree.id tree.children := by
  rw [IsLinked, nodes_eq]
  simp only [List.forall_mem_cons, List.mem_flatMap, AreOwned, IsLinked]
  constructor
  · rintro ⟨top, below⟩ child member
    exact ⟨top child member, fun node inside => below node ⟨child, member, inside⟩⟩
  · intro owned
    refine ⟨fun child member => (owned child member).1, ?_⟩
    rintro node ⟨child, member, inside⟩
    exact (owned child member).2 node inside

theorem areOwned_nil (owner : Nat) : AreOwned owner [] := List.forall_mem_nil _

theorem areOwned_cons {owner : Nat} {node : Node} {rest : List Node} :
    AreOwned owner (node :: rest) ↔
      node.parent = some owner ∧ AreOwned node.id node.children ∧ AreOwned owner rest := by
  rw [AreOwned, List.forall_mem_cons, isLinked_iff, and_assoc]
  rfl

theorem areOwned_append {owner : Nat} {left right : List Node} :
    AreOwned owner (left ++ right) ↔ AreOwned owner left ∧ AreOwned owner right :=
  List.forall_mem_append

/-- The trees of a row may be given another owner. -/
theorem AreOwned.map_under {owner : Nat} {row : List Node} (owned : AreOwned owner row)
    (other : Nat) : AreOwned other (row.map (under other)) := by
  intro node member
  obtain ⟨child, inside, rfl⟩ := List.mem_map.mp member
  have linked := isLinked_iff.mp (owned child inside).2
  exact ⟨rfl, isLinked_iff.mpr linked⟩

/-- Whether conjunctions can be gathered here: there are none yet, and no connective owns nodes. -/
def IsOpen (node : Node) : Prop :=
  node.kind ≠ .conjunction ∧ ∀ link, node.kind = .connective link → node.children = []

theorem open_cons {node : Node} {rest : List Node} :
    (∀ part ∈ (node :: rest).flatMap nodes, part.IsOpen) ↔
      node.IsOpen ∧ (∀ part ∈ node.children.flatMap nodes, part.IsOpen) ∧
        ∀ part ∈ rest.flatMap nodes, part.IsOpen := by
  rw [List.flatMap_cons, List.forall_mem_append, nodes_eq, List.forall_mem_cons, and_assoc]

end Node

end DataCondition
