import Mathlib.Order.Bounds.Defs
import DataCondition.Proofs.Tree.Height
import DataCondition.Tree.Walk

/-!
# What walks visit

A walk visits all of the tree that is on top before anything that is pending behind it. So it ends
after as many steps as there are nodes, and it goes as deep as the tree is high. Once it comes to a
node, it goes on as a walk from that node would, and then takes up what was pending.
-/

namespace DataCondition

namespace Node

/-! ## Depths -/

theorem mem_preorder_iff {start depth : Nat} {node part : Node} :
    (depth, part) ∈ node.preorder start ↔
      (depth = start ∧ part = node) ∨
        ∃ child ∈ node.children, (depth, part) ∈ child.preorder (start + 1) := by
  rw [preorder_eq, List.mem_cons, Prod.mk.injEq, List.mem_flatMap]

theorem le_of_mem_preorder {start depth : Nat} {node part : Node}
    (member : (depth, part) ∈ node.preorder start) : depth ≤ start + node.height := by
  induction node using Node.induction generalizing start with
  | step id parent kind children induction =>
      rcases mem_preorder_iff.mp member with ⟨rfl, -⟩ | ⟨child, isChild, below⟩
      · exact Nat.le_add_right ..
      · have lower := induction child isChild below
        have higher := heightAll_le_iff.mp (Nat.le_refl (heightAll children)) child isChild
        rw [height]
        omega

theorem exists_height_eq {row : List Node} (nonempty : row ≠ []) :
    ∃ node ∈ row, heightAll row = node.height + 1 := by
  induction row with
  | nil => exact absurd rfl nonempty
  | cons first rest induction =>
      rw [heightAll]
      by_cases lower : heightAll rest ≤ first.height + 1
      · exact ⟨first, List.mem_cons_self, by omega⟩
      · have others : rest ≠ [] := by
          rintro rfl
          exact lower (Nat.zero_le _)
        obtain ⟨node, member, same⟩ := induction others
        exact ⟨node, List.mem_cons_of_mem _ member, by omega⟩

theorem exists_mem_preorder (start : Nat) (node : Node) :
    ∃ part, (start + node.height, part) ∈ node.preorder start := by
  induction node using Node.induction generalizing start with
  | step id parent kind children induction =>
      by_cases leaf : children = []
      · subst leaf
        exact ⟨_, mem_preorder_iff.mpr (.inl ⟨rfl, rfl⟩)⟩
      · obtain ⟨child, isChild, same⟩ := exists_height_eq leaf
        obtain ⟨part, below⟩ := induction child isChild (start + 1)
        refine ⟨part, mem_preorder_iff.mpr (.inr ⟨child, isChild, ?_⟩)⟩
        rwa [height, same, Nat.add_comm child.height, ← Nat.add_assoc]

end Node

namespace Walk

/-! ## Runs -/

/-- The next `steps` nodes that a walk visits, and the walk after them, unless it ends before. -/
def run : Nat → Walk → Option (List (Nat × Node) × Walk)
  | 0, walk => some ([], walk)
  | steps + 1, walk => do
    let (visited, after) ← walk.next?
    let (others, last) ← run steps after
    return (visited :: others, last)

theorem run_succ_eq_some {steps : Nat} {walk last : Walk} {rows : List (Nat × Node)} :
    walk.run (steps + 1) = some (rows, last) ↔
      ∃ visited after others, walk.next? = some (visited, after) ∧
        after.run steps = some (others, last) ∧ visited :: others = rows := by
  simp [run, Option.bind_eq_some_iff]

/-- A walk ends, and by then it has visited its whole list. -/
theorem run_remaining (walk : Walk) : walk.run walk.remaining = some (walk.toList, ⟨[]⟩) := by
  fun_induction toList walk with
  | case1 walk finished =>
      rw [eq_nil_of_next? finished]
      rfl
  | case2 walk visited after step induction =>
      rw [remaining_of_next? step]
      exact run_succ_eq_some.mpr ⟨visited, after, _, step, induction, rfl⟩

theorem length_toList (walk : Walk) : walk.toList.length = walk.remaining := by
  fun_induction toList walk with
  | case1 walk finished =>
      rw [eq_nil_of_next? finished]
      rfl
  | case2 walk visited after step induction =>
      rw [remaining_of_next? step, List.length_cons, induction]

theorem next?_append {walk after : Walk} {visited : Nat × Node}
    (step : walk.next? = some (visited, after)) (behind : List (Nat × Node)) :
    next? ⟨walk.pending ++ behind⟩ = some (visited, ⟨after.pending ++ behind⟩) := by
  obtain ⟨depth, node⟩ := visited
  obtain ⟨rest, rfl, rfl⟩ := exists_rest_of_next? step
  simp [next?, push_eq]

/-- What is pending behind is left alone as long as something is pending before it. -/
theorem run_append {steps : Nat} {walk last : Walk} {rows : List (Nat × Node)}
    (visits : walk.run steps = some (rows, last)) (behind : List (Nat × Node)) :
    run steps ⟨walk.pending ++ behind⟩ = some (rows, ⟨last.pending ++ behind⟩) := by
  induction steps generalizing walk rows with
  | zero =>
      obtain ⟨rfl, rfl⟩ := by simpa [run] using visits
      rfl
  | succ steps induction =>
      obtain ⟨visited, after, others, step, later, rfl⟩ := run_succ_eq_some.mp visits
      exact run_succ_eq_some.mpr
        ⟨visited, _, others, next?_append step behind, induction later, rfl⟩

theorem toList_eq_cons {walk : Walk} {visited : Nat × Node} {rows : List (Nat × Node)}
    (visits : walk.toList = visited :: rows) :
    ∃ after, walk.next? = some (visited, after) ∧ after.toList = rows := by
  rw [toList] at visits
  split at visits
  next => cases visits
  next first after step =>
    obtain ⟨rfl, rfl⟩ := List.cons.inj visits
    exact ⟨after, step, rfl⟩

/-- A walk can be stopped anywhere in its list, and still has the rest of the list to visit. -/
theorem exists_run_of_toList {walk : Walk} {before later : List (Nat × Node)}
    (visits : walk.toList = before ++ later) :
    ∃ middle, walk.run before.length = some (before, middle) ∧ middle.toList = later := by
  induction before generalizing walk with
  | nil => exact ⟨walk, rfl, visits⟩
  | cons visited before induction =>
      obtain ⟨after, step, rest⟩ := toList_eq_cons visits
      obtain ⟨middle, reached, left⟩ := induction rest
      exact ⟨middle, run_succ_eq_some.mpr ⟨visited, after, before, step, reached, rfl⟩, left⟩

/-! ## Trees on top -/

theorem toList_top (depth : Nat) (node : Node) :
    toList ⟨[(depth, node)]⟩ = node.preorder depth := by
  rw [toList_eq, List.flatMap_singleton]

/-- A walk visits the whole tree on top, and then takes up what is pending behind it. -/
theorem run_top (depth : Nat) (node : Node) (behind : List (Nat × Node)) :
    run (node.size + 1) ⟨(depth, node) :: behind⟩ = some (node.preorder depth, ⟨behind⟩) := by
  have alone := run_remaining ⟨[(depth, node)]⟩
  have count : remaining ⟨[(depth, node)]⟩ = node.size + 1 := Nat.add_comm 1 node.size
  rw [toList_top, count] at alone
  exact run_append alone behind

end Walk

namespace Node

/--
A walk from the node ends and visits the node and all below it, from left to right and owners first,
each at its distance from the node.
-/
structure IsWalked (node : Node) : Prop where
  ends : (Walk.start node).run (node.size + 1) = some (node.preorder 0, ⟨[]⟩)
  ordered : (Walk.start node).toList = node.preorder 0
  counted : (Walk.start node).toList.length = node.size + 1
  deepest : IsGreatest {depth | ∃ part, (depth, part) ∈ (Walk.start node).toList} node.height

theorem isWalked (node : Node) : node.IsWalked := by
  have ordered : (Walk.start node).toList = node.preorder 0 := Walk.toList_top 0 node
  refine ⟨Walk.run_top 0 node [], ordered, ?_, ?_⟩
  · rw [Walk.length_toList]
    exact Nat.add_comm 1 node.size
  · rw [ordered]
    constructor
    · rw [← Nat.zero_add node.height]
      exact exists_mem_preorder 0 node
    · rintro depth ⟨part, member⟩
      simpa using le_of_mem_preorder member

/--
A walk from a tree ends and visits as many nodes as there are, in order and as deep as the tree is
high. So does a walk from any node that it comes to, and until that node is left behind both walks
visit the same nodes.
-/
theorem isWalked_throughout (tree : Node) :
    tree.IsWalked ∧ ∀ before depth part later,
      (Walk.start tree).toList = before ++ (depth, part) :: later →
        part.IsWalked ∧ ∃ behind,
          (Walk.start tree).run before.length = some (before, ⟨(depth, part) :: behind⟩) ∧
          Walk.run (part.size + 1) ⟨(depth, part) :: behind⟩ =
            some (lowered depth (Walk.start part).toList, ⟨behind⟩) := by
  refine ⟨isWalked tree, fun before depth part later visits => ⟨isWalked part, ?_⟩⟩
  obtain ⟨middle, reached, left⟩ := Walk.exists_run_of_toList visits
  obtain ⟨after, step, -⟩ := Walk.toList_eq_cons left
  obtain ⟨behind, rfl, -⟩ := Walk.exists_rest_of_next? step
  refine ⟨behind, reached, ?_⟩
  rw [Walk.run_top, (isWalked part).ordered, ← preorder_add, Nat.add_zero]

/-- A walk that comes to the first of two disjuncts visits its tests before the second one. -/
theorem isWalked_throughout_disjuncts :
    let test (id owner : Nat) (text : Text) : Node := ⟨id, some owner, .atom text, []⟩
    let first : Node := ⟨5, some 0, .disjunct, [test 1 5 ['a'], test 2 5 ['b']]⟩
    let second : Node := ⟨6, some 0, .disjunct, [test 3 6 ['c'], test 4 6 ['d']]⟩
    let root : Node := ⟨0, none, .root, [first, second]⟩
    let later := [(2, test 1 5 ['a']), (2, test 2 5 ['b']), (1, second), (2, test 3 6 ['c']),
      (2, test 4 6 ['d'])]
    (Walk.start root).toList = [(0, root)] ++ (1, first) :: later ∧ first.IsWalked ∧
      ∃ behind, (Walk.start root).run 1 = some ([(0, root)], ⟨(1, first) :: behind⟩) ∧
        Walk.run 3 ⟨(1, first) :: behind⟩ =
          some ([(1, first), (2, test 1 5 ['a']), (2, test 2 5 ['b'])], ⟨behind⟩) := by
  intro test first second root later
  obtain ⟨whole, below⟩ := isWalked_throughout root
  have visits : (Walk.start root).toList = [(0, root)] ++ (1, first) :: later := whole.ordered
  obtain ⟨walked, behind, reached, next⟩ := below _ _ _ _ visits
  rw [walked.ordered] at next
  exact ⟨visits, walked, behind, reached, next⟩

end Node

end DataCondition
