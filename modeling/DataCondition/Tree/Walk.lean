import DataCondition.Tree.Basic

/-!
# Walking a tree step by step

A walk keeps the nodes that it still has to visit, with their depths. A step visits the first of
them and puts its children in front of the others.
-/

namespace DataCondition

/-- The nodes that are still to be visited, the next one first, each with all below it. -/
structure Walk where
  pending : List (Nat × Node)

namespace Walk

/-- The walk that starts at a node, at depth zero. -/
def start (node : Node) : Walk := ⟨[(0, node)]⟩

/-- Puts nodes before the pending ones. The last node goes first, so that the first is on top. -/
def push (depth : Nat) (nodes : List Node) (pending : List (Nat × Node)) : List (Nat × Node) :=
  nodes.reverse.foldl (fun pending node => (depth, node) :: pending) pending

theorem push_eq (depth : Nat) (nodes : List Node) (pending : List (Nat × Node)) :
    push depth nodes pending = nodes.map (depth, ·) ++ pending := by
  rw [push, List.foldl_reverse, List.foldr_cons_eq_append]

/-- The node that is visited next, and the walk after it. -/
def next? : Walk → Option ((Nat × Node) × Walk)
  | ⟨[]⟩ => none
  | ⟨(depth, node) :: rest⟩ => some ((depth, node), ⟨push (depth + 1) node.children rest⟩)

theorem eq_nil_of_next? {walk : Walk} (finished : walk.next? = none) : walk = ⟨[]⟩ := by
  obtain ⟨_ | ⟨top, rest⟩⟩ := walk
  · rfl
  · cases finished

/-- What is visited was on top, and its children take its place. -/
theorem exists_rest_of_next? {walk after : Walk} {depth : Nat} {node : Node}
    (step : walk.next? = some ((depth, node), after)) :
    ∃ rest, walk = ⟨(depth, node) :: rest⟩ ∧
      after = ⟨node.children.map (depth + 1, ·) ++ rest⟩ := by
  obtain ⟨_ | ⟨⟨depth', node'⟩, rest⟩⟩ := walk
  · cases step
  · obtain ⟨⟨rfl, rfl⟩, rfl⟩ := by simpa [next?] using step
    exact ⟨rest, rfl, by rw [push_eq]⟩

/-- How many nodes a walk still visits. -/
def remaining (walk : Walk) : Nat :=
  Node.sizeAll (walk.pending.map Prod.snd)

theorem sizeAll_append (left right : List Node) :
    Node.sizeAll (left ++ right) = Node.sizeAll left + Node.sizeAll right := by
  induction left with
  | nil => simp [Node.sizeAll]
  | cons node rest induction => simp [Node.sizeAll, induction, Nat.add_assoc]

/-- A step visits one node. -/
theorem remaining_of_next? {walk after : Walk} {visited : Nat × Node}
    (step : walk.next? = some (visited, after)) : walk.remaining = after.remaining + 1 := by
  obtain ⟨depth, ⟨id, parent, kind, children⟩⟩ := visited
  obtain ⟨rest, rfl, rfl⟩ := exists_rest_of_next? step
  have unchanged : children.map (Prod.snd ∘ fun child => (depth + 1, child)) = children := by
    simp [Function.comp_def]
  simp only [remaining, List.map_cons, List.map_append, List.map_map, unchanged, sizeAll_append,
    Node.sizeAll, Node.size]
  omega

/-- All nodes that a walk visits, in order. -/
def toList (walk : Walk) : List (Nat × Node) :=
  match _ : walk.next? with
  | none => []
  | some (visited, after) => visited :: after.toList
termination_by walk.remaining
decreasing_by
  rename_i step
  rw [remaining_of_next? step]
  exact Nat.lt_succ_self _

/-- A walk visits the trees that are pending one after the other, each in its own order. -/
theorem toList_eq (walk : Walk) :
    walk.toList = walk.pending.flatMap fun (depth, node) => node.preorder depth := by
  fun_induction toList walk with
  | case1 walk finished =>
      rw [eq_nil_of_next? finished]
      rfl
  | case2 walk visited after step induction =>
      obtain ⟨depth, node⟩ := visited
      obtain ⟨rest, rfl, rfl⟩ := exists_rest_of_next? step
      simp only [induction, node.preorder_eq depth, List.flatMap_append, List.flatMap_map,
        List.flatMap_cons, List.cons_append]

end Walk

end DataCondition
