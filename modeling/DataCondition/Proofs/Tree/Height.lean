import DataCondition.Proofs.Tree.Disjunction
import DataCondition.Proofs.Tree.Nesting
import DataCondition.Proofs.Tree.Printing
import DataCondition.Proofs.Tree.Shape

/-!
# How high trees are

The height of a tree is bounded by how deep its groups nest: a tree of parentheses has one level for
each group, and a logic tree has three. Gathering disjuncts at most doubles a height.
-/

namespace DataCondition

namespace Node

variable {next after : UInt32} {node : Node} {row : List Node}

theorem height_eq (node : Node) : node.height = heightAll node.children := by
  obtain ⟨id, parent, kind, children⟩ := node
  rw [height]

theorem height_under (owner : Nat) (node : Node) : (node.under owner).height = node.height := by
  rw [height_eq, height_eq node]
  rfl

theorem heightAll_le_iff {bound : Nat} :
    heightAll row ≤ bound ↔ ∀ node ∈ row, node.height < bound := by
  induction row with
  | nil => simp [heightAll]
  | cons node rest induction =>
      rw [heightAll, List.forall_mem_cons, ← induction]
      omega

theorem groupDepth_le_of_mem (member : node ∈ row) : node.groupDepth ≤ groupDepthAll row := by
  induction row with
  | nil => simp at member
  | cons first rest induction =>
      rw [groupDepthAll]
      rcases List.mem_cons.mp member with rfl | later
      · exact Nat.le_max_left ..
      · exact Nat.le_trans (induction later) (Nat.le_max_right ..)

/-! ## Logic trees -/

/-- The levels that a node of this kind may be above the topmost group below it. -/
def Kind.levels : Kind → Nat
  | .root => 3
  | .disjunct => 2
  | .conjunction => 1
  | .atom _ | .group | .connective _ => 0

theorem Kind.levels_le (kind : Kind) : kind.levels ≤ 3 := by
  cases kind <;> simp [levels]

theorem IsShaped.levels_lt {child : Node} (shaped : node.IsShaped)
    (member : child ∈ node.children) :
    child.kind.levels < node.kind.levels + if node.kind = .group then 3 else 0 := by
  have levels_of_isAtom (test : child.isAtom) : child.kind.levels = 0 := by
    obtain ⟨text, kind⟩ := kind_of_isAtom test
    rw [kind, Kind.levels]
  rcases shaped.child_cases member with
    ⟨top | top, isDisjunct⟩ | ⟨top, test | joined⟩ | ⟨top, test | isGroup⟩
  · simp [top, isDisjunct, Kind.levels]
  · simp [top, isDisjunct, Kind.levels]
  · rw [top, levels_of_isAtom test]
    exact Nat.zero_lt_succ _
  · simp [top, joined, Kind.levels]
  · rw [top, levels_of_isAtom test]
    exact Nat.zero_lt_succ _
  · simp [top, isGroup, Kind.levels]

/-- Between a group and the next one below it there are a disjunct and a conjunction. -/
theorem height_le_of_shaped (shaped : ∀ part ∈ node.nodes, part.IsShaped) :
    node.height ≤ 3 * node.groupDepth + node.kind.levels := by
  induction node using Node.induction with
  | step id parent kind children induction =>
      rw [nodes_eq, List.forall_mem_cons, List.forall_mem_flatMap] at shaped
      obtain ⟨here, below⟩ := shaped
      rw [height, heightAll_le_iff, groupDepth]
      intro child member
      have inside := induction child member (below child member)
      have shallow := groupDepth_le_of_mem member
      have lower := here.levels_lt member
      by_cases isGroup : kind = .group
      · simp only [if_pos isGroup] at lower ⊢
        omega
      · simp only [if_neg isGroup] at lower ⊢
        omega

/-! ## Trees of parentheses -/

theorem allNested_iff : allNested row ↔ ∀ node ∈ row, node.isNested := by
  induction row with
  | nil => simp [allNested]
  | cons node rest induction => simp [allNested, induction]

theorem height_le_of_isNested (nested : node.isNested) : node.height ≤ node.groupDepth := by
  induction node using Node.induction with
  | step id parent kind children induction =>
      cases kind with
      | atom | connective =>
          obtain rfl : children = [] := by simpa [isNested] using nested
          exact Nat.zero_le _
      | group =>
          rw [isNested, allNested_iff] at nested
          rw [height, heightAll_le_iff, groupDepth, if_pos rfl]
          intro child member
          have inside := induction child member (nested child member)
          have shallow := groupDepth_le_of_mem member
          omega
      | root | disjunct | conjunction => simp [isNested] at nested

mutual

/-- The nesting of a tree of parentheses is seen in its tokens, whatever is behind them. -/
theorem deepest_spelling (depth : Nat) (later : List Token) : ∀ node : Node, node.isNested →
    Token.deepest depth (node.spelling ++ later) =
      max (depth + node.groupDepth) (Token.deepest depth later)
  | ⟨_, _, .atom _, children⟩, nested | ⟨_, _, .connective _, children⟩, nested => by
      obtain rfl : children = [] := by simpa [isNested] using nested
      have reached := Token.le_deepest depth later
      simp only [spelling, List.cons_append, List.nil_append, Token.deepest, groupDepth,
        groupDepthAll, reduceCtorEq, if_false]
      omega
  | ⟨_, _, .group, children⟩, nested => by
      have inside := deepest_spellingAll (depth + 1) (.closing :: later) children nested
      simp only [spelling, List.append_assoc, List.cons_append, List.nil_append, Token.deepest,
        inside, Nat.add_sub_cancel, groupDepth, if_true]
      omega
  | ⟨_, _, .root, _⟩, nested | ⟨_, _, .disjunct, _⟩, nested | ⟨_, _, .conjunction, _⟩, nested => by
      simp [isNested] at nested
termination_by structural node => node

theorem deepest_spellingAll (depth : Nat) (later : List Token) : ∀ row : List Node, allNested row →
    Token.deepest depth (spellingAll row ++ later) =
      max (depth + groupDepthAll row) (Token.deepest depth later)
  | [], _ => by
      have reached := Token.le_deepest depth later
      rw [spellingAll, List.nil_append, groupDepthAll]
      omega
  | node :: rest, nested => by
      obtain ⟨here, behind⟩ : node.isNested ∧ allNested rest := by simpa [allNested] using nested
      have front := deepest_spelling depth (spellingAll rest ++ later) node here
      have back := deepest_spellingAll depth later rest behind
      rw [spellingAll, List.append_assoc, front, back, groupDepthAll]
      omega
termination_by structural row => row

end

/-- The tree of parentheses has one level for each parenthesis that is open at once. -/
theorem height_le_of_ofTokens {tokens : List Token} {tree : Node}
    (built : ofTokens tokens next = .ok (tree, after)) :
    tree.height ≤ Token.nesting tokens + 1 := by
  rcases ofTokens_eq_ok built with ⟨text, -, rfl⟩ | ⟨row, nested, rfl, rfl⟩
  · exact Nat.zero_le _
  · have deep := deepest_spellingAll 0 [] row nested
    rw [List.append_nil] at deep
    rw [height, heightAll_le_iff, Token.nesting, deep]
    intro child member
    have inside := height_le_of_isNested (allNested_iff.mp nested child member)
    have shallow := groupDepth_le_of_mem member
    omega

/-! ## Gathering disjuncts -/

theorem heightAll_append (left right : List Node) :
    heightAll (left ++ right) = max (heightAll left) (heightAll right) := by
  induction left with
  | nil => simp [heightAll]
  | cons node rest induction => simp [heightAll, induction, Nat.max_assoc]

mutual

/-- Every node gets at most one disjunct between it and its owner. -/
theorem height_of_disjuncts : ∀ (row : List Node) {owner : Nat} {next after : UInt32}
    {gathered : List Node},
    disjuncts owner row next = .ok (gathered, after) → heightAll gathered ≤ 2 * heightAll row
  | [], _, _, _, _, run => by simp [disjuncts] at run
  | ⟨id, parent, kind, children⟩ :: rest, owner, next, after, gathered, run => by
      rcases disjuncts_cons_eq_ok.mp run with
        ⟨-, ends, -, spliced, later, middle, inner_run, later_run, rfl⟩ |
        ⟨-, -, first, others, later, middle, member_run, members_run, rfl⟩
      · have inside := height_of_disjuncts children inner_run
        have behind := height_of_later rest later_run
        rw [heightAll_append, heightAll, height]
        omega
      · have front := height_of_member ⟨id, parent, kind, children⟩ member_run
        obtain ⟨beside, behind⟩ := height_of_members rest members_run
        rw [heightAll, heightAll, height, heightAll]
        omega
termination_by structural row => row

theorem height_of_later : ∀ (rest : List Node) {owner : Nat} {next after : UInt32}
    {gathered : List Node}, laterDisjuncts owner rest next = .ok (gathered, after) →
    heightAll gathered ≤ 2 * heightAll rest
  | [], _, _, _, _, run => by
      obtain ⟨rfl, -⟩ := by simpa using run
      exact Nat.zero_le _
  | separator :: rest, _, _, _, _, run => by
      rw [laterDisjuncts_cons] at run
      have behind := height_of_disjuncts rest run
      rw [heightAll]
      omega
termination_by structural rest => rest

theorem height_of_members : ∀ (rest : List Node) {disjunct owner : Nat} {next after : UInt32}
    {others later : List Node}, members disjunct owner rest next = .ok ((others, later), after) →
    heightAll others ≤ 2 * heightAll rest - 1 ∧ heightAll later ≤ 2 * heightAll rest
  | [], _, _, _, _, _, _, run => by
      obtain ⟨rfl, rfl, -⟩ := members_nil_eq_ok.mp run
      exact ⟨Nat.zero_le _, Nat.zero_le _⟩
  | node :: rest, disjunct, owner, next, after, others, later, run => by
      rw [heightAll]
      cases ends : node.isConnective .or with
      | true =>
          obtain ⟨rfl, later_run⟩ := (members_separator_eq_ok ends).mp run
          have behind := height_of_disjuncts rest later_run
          rw [heightAll]
          omega
      | false =>
          obtain ⟨moved, members, middle, moved_run, members_run, rfl⟩ :=
            (members_cons_eq_ok ends).mp run
          have front := height_of_member node moved_run
          obtain ⟨beside, behind⟩ := height_of_members rest members_run
          rw [heightAll]
          omega
termination_by structural rest => rest

theorem height_of_member : ∀ (node : Node) {disjunct : Nat} {next after : UInt32} {moved : Node},
    member disjunct node next = .ok (moved, after) → moved.height ≤ 2 * node.height
  | ⟨id, parent, kind, children⟩, _, _, _, _, run => by
      rcases member_eq_ok.mp run with ⟨-, -, gathered, inner_run, rfl⟩ | ⟨-, rfl, -⟩
      · exact height_of_disjuncts children inner_run
      · rw [height_under]
        exact Nat.le_mul_of_pos_left _ Nat.two_pos
termination_by structural node => node

end

/-- Gathering the disjuncts of a tree at most doubles its height. -/
theorem height_le_of_gatherDisjuncts {gathered : Node}
    (run : gatherDisjuncts node next = .ok (gathered, after)) :
    gathered.height ≤ 2 * node.height := by
  by_cases test : node.isAtom
  · rw [gatherDisjuncts, if_pos test] at run
    obtain ⟨rfl, -⟩ : node = gathered ∧ next = after := by simpa using run
    omega
  · obtain ⟨-, children, inside, rfl⟩ := (gatherDisjuncts_eq_ok (by simpa using test)).mp run
    rw [height_eq, height_eq node]
    exact height_of_disjuncts node.children inside

end Node

end DataCondition
