import DataCondition.Proofs.Grammar.Acceptance
import DataCondition.Proofs.Grammar.Shape
import DataCondition.Proofs.Tree.Printing

/-!
# Normal forms

The tokens of a logic tree lead back to it, up to numbers, exactly if it is in normal form. The one
logic tree that is not is a lone test in parentheses, since its tokens are those of the bare test.
-/

namespace DataCondition

namespace Grammar

open Node (IsShaped erasedAll groupDepthAll groupDepthAll_append joinedTokens joinedTokens_cons)

mutual

/-- No group of a logic tree is deeper than the parentheses that it comes from. -/
theorem Disjunction.groupDepthAll_alternatives : ∀ disjunction : Disjunction,
    groupDepthAll disjunction.alternatives ≤ disjunction.depth
  | .last conjunction => Conjunction.groupDepthAll_alternatives conjunction
  | .or first later => by
      have front := Conjunction.groupDepthAll_alternatives first
      have back := Disjunction.groupDepthAll_alternatives later
      rw [Disjunction.alternatives, Disjunction.depth, groupDepthAll_append]
      omega

theorem Conjunction.groupDepthAll_alternatives : ∀ conjunction : Conjunction,
    groupDepthAll conjunction.alternatives ≤ conjunction.depth
  | .last (.test _) => Nat.zero_le _
  | .last (.group inner) =>
      Nat.le_succ_of_le (Disjunction.groupDepthAll_alternatives inner)
  | .and first later => by
      have front := Term.groupDepth_operand first
      have back := Conjunction.groupDepthAll_operands later
      simp only [Conjunction.alternatives, Conjunction.depth, Node.bare, groupDepthAll,
        Node.groupDepth, reduceCtorEq, if_false]
      omega

theorem Conjunction.groupDepthAll_operands : ∀ conjunction : Conjunction,
    groupDepthAll conjunction.operands ≤ conjunction.depth
  | .last term => by
      have only := Term.groupDepth_operand term
      simp only [Conjunction.operands, Conjunction.depth, groupDepthAll]
      omega
  | .and first later => by
      have front := Term.groupDepth_operand first
      have back := Conjunction.groupDepthAll_operands later
      simp only [Conjunction.operands, Conjunction.depth, groupDepthAll]
      omega

theorem Term.groupDepth_operand : ∀ term : Term, term.operand.groupDepth ≤ term.depth
  | .test _ => Nat.le_refl _
  | .group inner => by
      have inside := Disjunction.groupDepthAll_alternatives inner
      simp only [Term.operand, Term.depth, Node.bare, Node.groupDepth, if_true]
      omega

end

theorem Disjunction.groupDepth_tree (disjunction : Disjunction) :
    disjunction.tree.groupDepth ≤ disjunction.depth := by
  by_cases alone : ∃ text, disjunction = .test text
  · obtain ⟨text, rfl⟩ := alone
    exact Nat.le_refl _
  · rw [Disjunction.tree_of_ne_test (by simpa using alone)]
    exact disjunction.groupDepthAll_alternatives

mutual

/-- A row of shaped disjuncts comes from a disjunction with its tokens. -/
theorem exists_disjunction_of_shaped : ∀ row : List Node,
    (∀ node ∈ row.flatMap Node.nodes, node.IsShaped) → row ≠ [] →
      (∀ node ∈ row, node.kind = .disjunct) →
        ∃ disjunction : Disjunction, disjunction.alternatives = erasedAll row ∧
          disjunction.tokens = joinedTokens .or row ∧ disjunction.depth = groupDepthAll row
  | [], _, nonempty, _ => absurd rfl nonempty
  | node :: rest, shaped, _, kinds => by
      rw [List.flatMap_cons, List.forall_mem_append] at shaped
      rw [List.forall_mem_cons] at kinds
      obtain ⟨first, same, spelled, deep⟩ :=
        exists_conjunction_of_shaped node shaped.1 kinds.1
      by_cases last : rest = []
      · subst last
        exact ⟨.last first, by simpa [Disjunction.alternatives] using same,
          by simpa [Disjunction.tokens, joinedTokens] using spelled,
          by simpa [Disjunction.depth, groupDepthAll] using deep⟩
      · obtain ⟨later, others, after, below⟩ :=
          exists_disjunction_of_shaped rest shaped.2 last kinds.2
        refine ⟨.or first later, ?_, ?_, ?_⟩
        · simp [Disjunction.alternatives, same, others]
        · rw [Disjunction.tokens, joinedTokens_cons _ _ last, spelled, after]
        · rw [Disjunction.depth, groupDepthAll, deep, below]

/-- A shaped disjunct comes from a conjunction with its tokens. -/
theorem exists_conjunction_of_shaped : ∀ node : Node, (∀ part ∈ node.nodes, part.IsShaped) →
    node.kind = .disjunct → ∃ conjunction : Conjunction,
      conjunction.alternatives = [node.erased] ∧ conjunction.tokens = node.tokens ∧
        conjunction.depth = node.groupDepth
  | ⟨id, parent, kind, children⟩, shaped, isDisjunct => by
      cases isDisjunct
      rw [Node.nodes_eq, List.forall_mem_cons] at shaped
      match children, shaped with
      | [member], ⟨⟨sole, alone, allowed⟩, below⟩ =>
          obtain rfl : member = sole := List.head_eq_of_cons_eq alone
          rw [List.flatMap_singleton] at below
          obtain ⟨conjunction, same, spelled, deep⟩ :=
            exists_member_of_shaped member below allowed
          refine ⟨conjunction, by simpa [Node.erased] using same, spelled, ?_⟩
          simpa [Node.groupDepth, groupDepthAll] using deep

/-- What stands under a disjunct comes from a conjunction with its tokens. -/
theorem exists_member_of_shaped : ∀ node : Node, (∀ part ∈ node.nodes, part.IsShaped) →
    node.isAtom ∨ node.kind = .conjunction → ∃ conjunction : Conjunction,
      conjunction.alternatives = [.bare .disjunct [node.erased]] ∧
        conjunction.tokens = node.tokens ∧ conjunction.depth = node.groupDepth
  | ⟨id, parent, kind, children⟩, shaped, allowed => by
      rw [Node.nodes_eq, List.forall_mem_cons] at shaped
      obtain ⟨top, below⟩ := shaped
      rcases allowed with test | joined
      · obtain ⟨text, rfl⟩ := Node.kind_of_isAtom test
        obtain rfl : children = [] := top
        exact ⟨.last (.test text), rfl, rfl, rfl⟩
      · cases joined
        obtain ⟨several, kinds⟩ : 2 ≤ children.length ∧ _ := top
        obtain ⟨conjunction, same, spelled, deep⟩ := exists_operands_of_shaped children below
          (List.ne_nil_of_length_pos (by omega)) kinds
        cases conjunction with
        | last term =>
            have short := congrArg List.length same
            rw [Node.erasedAll_eq_map, List.length_map] at short
            simp only [Conjunction.operands, List.length_singleton] at short
            omega
        | and first later =>
            refine ⟨.and first later, ?_, spelled, by simpa [Node.groupDepth] using deep⟩
            rw [Node.erased, ← same, Conjunction.operands, Conjunction.alternatives]

/-- A row of shaped operands comes from a conjunction with its tokens. -/
theorem exists_operands_of_shaped : ∀ row : List Node,
    (∀ node ∈ row.flatMap Node.nodes, node.IsShaped) → row ≠ [] →
      (∀ node ∈ row, node.isAtom ∨ node.kind = .group) →
        ∃ conjunction : Conjunction, conjunction.operands = erasedAll row ∧
          conjunction.tokens = joinedTokens .and row ∧ conjunction.depth = groupDepthAll row
  | [], _, nonempty, _ => absurd rfl nonempty
  | node :: rest, shaped, _, kinds => by
      rw [List.flatMap_cons, List.forall_mem_append] at shaped
      rw [List.forall_mem_cons] at kinds
      obtain ⟨first, same, spelled, deep⟩ := exists_term_of_shaped node shaped.1 kinds.1
      by_cases last : rest = []
      · subst last
        exact ⟨.last first, by simp [Conjunction.operands, same],
          by simpa [Conjunction.tokens, joinedTokens] using spelled,
          by simpa [Conjunction.depth, groupDepthAll] using deep⟩
      · obtain ⟨later, others, after, below⟩ :=
          exists_operands_of_shaped rest shaped.2 last kinds.2
        refine ⟨.and first later, ?_, ?_, ?_⟩
        · simp [Conjunction.operands, same, others]
        · rw [Conjunction.tokens, joinedTokens_cons _ _ last, spelled, after]
        · rw [Conjunction.depth, groupDepthAll, deep, below]

/-- A shaped operand comes from a term with its tokens. -/
theorem exists_term_of_shaped : ∀ node : Node, (∀ part ∈ node.nodes, part.IsShaped) →
    node.isAtom ∨ node.kind = .group → ∃ term : Term, term.operand = node.erased ∧
      term.tokens = node.tokens ∧ term.depth = node.groupDepth
  | ⟨id, parent, kind, children⟩, shaped, allowed => by
      rw [Node.nodes_eq, List.forall_mem_cons] at shaped
      obtain ⟨top, below⟩ := shaped
      rcases allowed with test | isGroup
      · obtain ⟨text, rfl⟩ := Node.kind_of_isAtom test
        obtain rfl : children = [] := top
        exact ⟨.test text, rfl, rfl, rfl⟩
      · cases isGroup
        obtain ⟨nonempty, kinds⟩ : children ≠ [] ∧ _ := top
        obtain ⟨inner, same, spelled, deep⟩ :=
          exists_disjunction_of_shaped children below nonempty kinds
        refine ⟨.group inner, ?_, ?_, ?_⟩
        · rw [Term.operand, same, Node.erased]
        · rw [Term.tokens, spelled, Node.tokens]
        · rw [Term.depth, deep, Node.groupDepth, if_pos rfl]

end

end Grammar

namespace Node

open Grammar (testNode)

/-- A lone test in parentheses, without numbers and owners. -/
def enclosedTest (text : Text) : Node := .bare .root [.bare .disjunct [testNode text]]

/--
A lone test or a root, below which every node has the children that its kind calls for and groups
nest at most 256 deep; but not a root over a lone test.
-/
structure IsNormal (tree : Node) : Prop where
  top : tree.isAtom ∨ tree.kind = .root
  shaped : ∀ node ∈ tree.nodes, node.IsShaped
  shallow : tree.groupDepth ≤ 256
  compound : ∀ text, tree.erased ≠ enclosedTest text

/-- A tree in normal form is the logic tree of a derivation with its tokens. -/
theorem IsNormal.exists_disjunction {tree : Node} (normal : tree.IsNormal) :
    ∃ disjunction : Grammar.Disjunction, disjunction.tree = tree.erased ∧
      disjunction.tokens = tree.tokens ∧ disjunction.depth = tree.groupDepth := by
  obtain ⟨top, shaped, -, compound⟩ := normal
  obtain ⟨id, parent, kind, children⟩ := tree
  rw [nodes_eq, List.forall_mem_cons] at shaped
  obtain ⟨here, below⟩ := shaped
  rcases top with test | isRoot
  · obtain ⟨text, rfl⟩ := kind_of_isAtom test
    obtain rfl : children = [] := here
    exact ⟨.test text, rfl, rfl, rfl⟩
  · cases isRoot
    obtain ⟨nonempty, kinds⟩ : children ≠ [] ∧ _ := here
    obtain ⟨disjunction, same, spelled, deep⟩ :=
      Grammar.exists_disjunction_of_shaped children below nonempty kinds
    refine ⟨disjunction, ?_, spelled, by simpa [groupDepth] using deep⟩
    rw [Grammar.Disjunction.tree_of_ne_test, same, erased]
    rintro text rfl
    refine compound text ?_
    rw [erased, ← same]
    rfl

/-- The groups of a logic tree nest at most as deep as the parentheses of its tokens. -/
theorem groupDepth_le_of_logicTree {tokens : List Token} {next after : UInt32} {tree : Node}
    (built : (logicTree tokens).run next = .ok (tree, after)) :
    tree.groupDepth ≤ Token.nesting tokens := by
  obtain ⟨-, disjunction, rfl⟩ := Grammar.exists_tokens_of_logicTree built
  rw [← groupDepth_erased, Grammar.Disjunction.erased_of_logicTree built,
    disjunction.nesting_tokens]
  exact disjunction.groupDepth_tree

/-- A logic tree is in normal form, unless it is a lone test in parentheses. -/
theorem isNormal_of_logicTree {tokens : List Token} {next after : UInt32} {tree : Node}
    (built : (logicTree tokens).run next = .ok (tree, after))
    (compound : ∀ text, tree.erased ≠ enclosedTest text) : tree.IsNormal := by
  have canonical := canonical_of_logicTree built
  obtain ⟨within, -⟩ := Grammar.exists_tokens_of_logicTree built
  exact ⟨canonical.top.imp_left And.left, canonical.shaped,
    Nat.le_trans (groupDepth_le_of_logicTree built) within, compound⟩

theorem IsNormal.of_erased_eq {tree other : Node} (normal : tree.IsNormal)
    (same : tree.erased = other.erased) : other.IsNormal where
  top := by
    rw [← isAtom_erased, ← kind_erased, ← same, isAtom_erased, kind_erased]
    exact normal.top
  shaped := by
    rw [← shaped_erased, ← same, shaped_erased]
    exact normal.shaped
  shallow := by
    rw [← groupDepth_erased, ← same, groupDepth_erased]
    exact normal.shallow
  compound := same ▸ normal.compound

/-- The tokens of a tree in normal form lead back to it. -/
theorem IsNormal.exists_logicTree {tree : Node} (normal : tree.IsNormal) (next : UInt32) :
    ∃ again after, (logicTree tree.tokens).run next = .ok (again, after) ∧
      again.erased = tree.erased := by
  obtain ⟨disjunction, same, spelled, deep⟩ := normal.exists_disjunction
  have within : Token.nesting disjunction.tokens ≤ Nesting.limit := by
    rw [disjunction.nesting_tokens, deep]
    exact normal.shallow
  rw [← same, ← spelled]
  exact disjunction.logicTree_tokens within next

/--
The tokens of a tree lead back to it, up to numbers and owners, exactly if it is in normal form; and
so they do for the logic tree of any tokens that is no lone test in parentheses.
-/
theorem isNormal_iff_exists_logicTree (next : UInt32) :
    (∀ tree : Node, tree.IsNormal ↔
      ∃ again after, (logicTree tree.tokens).run next = .ok (again, after) ∧
        again.erased = tree.erased) ∧
    ∀ tokens start tree stop, (logicTree tokens).run start = .ok (tree, stop) →
      (∀ text, tree.erased ≠ enclosedTest text) →
        ∃ again after, (logicTree tree.tokens).run next = .ok (again, after) ∧
          again.erased = tree.erased := by
  constructor
  · intro tree
    constructor
    · exact fun normal => normal.exists_logicTree next
    · rintro ⟨again, after, built, same⟩
      have compound : ∀ text, again.erased ≠ enclosedTest text := by
        intro text enclosed
        -- the tokens of a lone test have the bare test as their tree
        rw [← tokens_erased, ← same, enclosed] at built
        obtain ⟨rfl, -⟩ : ⟨next, none, .atom text, []⟩ = again ∧ next + 1 = after := by
          simpa using (Except.ok.inj built)
        cases enclosed
      exact (isNormal_of_logicTree built compound).of_erased_eq same
  · intro tokens start tree stop built compound
    exact (isNormal_of_logicTree built compound).exists_logicTree next

/-- The tokens of the logic tree of `a and (b or c)` lead back to it. -/
theorem exists_logicTree_and_group :
    let tokens : List Token := [.atom ['a'], .connective .and, .opening, .atom ['b'],
      .connective .or, .atom ['c'], .closing]
    let group : Node := ⟨3, some 10, .group, [
      ⟨8, some 3, .disjunct, [⟨4, some 8, .atom ['b'], []⟩]⟩,
      ⟨9, some 3, .disjunct, [⟨6, some 9, .atom ['c'], []⟩]⟩]⟩
    let tree : Node := ⟨0, none, .root, [⟨7, some 0, .disjunct, [⟨10, some 7, .conjunction,
      [⟨1, some 10, .atom ['a'], []⟩, group]⟩]⟩]⟩
    tree.IsNormal ∧ tree.tokens = tokens ∧
      ∃ again after, (logicTree tokens).run 5 = .ok (again, after) ∧
        again.erased = tree.erased := by
  intro tokens group tree
  have built : (logicTree tokens).run 1 = .ok (tree, 11) := rfl
  have compound : ∀ text, tree.erased ≠ enclosedTest text := by
    intro text same
    cases same
  obtain ⟨normal, again⟩ := isNormal_iff_exists_logicTree 5
  have returned := again tokens 1 tree 11 built compound
  exact ⟨(normal tree).mpr returned, rfl, returned⟩

end Node

end DataCondition
