import DataCondition.Proofs.Grammar.LogicTree
import DataCondition.Proofs.Tree.Shape

/-!
# The shape of logic trees

All connectives are gone from a logic tree and its nodes alternate: disjuncts stand under the root
and under groups, conjunctions under disjuncts, and groups under conjunctions only.
-/

namespace DataCondition

namespace Grammar

open Node (IsShaped)

theorem isShaped_testNode (text : Text) : ∀ node ∈ (testNode text).nodes, node.IsShaped := by
  simp [testNode, Node.bare, Node.nodes_eq, IsShaped]

mutual

theorem Disjunction.kind_alternatives : ∀ disjunction : Disjunction,
    ∀ node ∈ disjunction.alternatives, node.kind = .disjunct
  | .last conjunction => Conjunction.kind_alternatives conjunction
  | .or first later =>
      List.forall_mem_append.mpr
        ⟨Conjunction.kind_alternatives first, Disjunction.kind_alternatives later⟩

theorem Conjunction.kind_alternatives : ∀ conjunction : Conjunction,
    ∀ node ∈ conjunction.alternatives, node.kind = .disjunct
  | .last (.test _) => by simp [Conjunction.alternatives, Node.bare]
  | .last (.group inner) => Disjunction.kind_alternatives inner
  | .and _ _ => by simp [Conjunction.alternatives, Node.bare]

end

mutual

theorem Disjunction.alternatives_ne_nil : ∀ disjunction : Disjunction,
    disjunction.alternatives ≠ []
  | .last conjunction => Conjunction.alternatives_ne_nil conjunction
  | .or first _ => by
      simp [Disjunction.alternatives, Conjunction.alternatives_ne_nil first]

theorem Conjunction.alternatives_ne_nil : ∀ conjunction : Conjunction,
    conjunction.alternatives ≠ []
  | .last (.test _) => by simp [Conjunction.alternatives]
  | .last (.group inner) => Disjunction.alternatives_ne_nil inner
  | .and _ _ => by simp [Conjunction.alternatives]

end

theorem Term.kind_operand (term : Term) : term.operand.isAtom ∨ term.operand.kind = .group := by
  cases term with
  | test text => exact .inl rfl
  | group inner => exact .inr rfl

theorem Conjunction.kind_operands (conjunction : Conjunction) :
    ∀ node ∈ conjunction.operands, node.isAtom ∨ node.kind = .group := by
  cases conjunction with
  | last term => simpa [Conjunction.operands] using term.kind_operand
  | and first later => exact List.forall_mem_cons.mpr ⟨first.kind_operand, later.kind_operands⟩
termination_by structural conjunction

theorem Conjunction.length_operands_pos (conjunction : Conjunction) :
    0 < conjunction.operands.length := by
  cases conjunction <;> simp [Conjunction.operands]

mutual

theorem Disjunction.isShaped_alternatives : ∀ disjunction : Disjunction,
    ∀ node ∈ disjunction.alternatives.flatMap Node.nodes, node.IsShaped
  | .last conjunction => Conjunction.isShaped_alternatives conjunction
  | .or first later => by
      rw [Disjunction.alternatives, List.flatMap_append, List.forall_mem_append]
      exact ⟨Conjunction.isShaped_alternatives first, Disjunction.isShaped_alternatives later⟩

theorem Conjunction.isShaped_alternatives : ∀ conjunction : Conjunction,
    ∀ node ∈ conjunction.alternatives.flatMap Node.nodes, node.IsShaped
  | .last (.test text) => by
      have disjunct : IsShaped (.bare .disjunct [testNode text]) := ⟨testNode text, rfl, .inl rfl⟩
      rw [Conjunction.alternatives, List.flatMap_singleton, Node.nodes_eq, List.forall_mem_cons]
      exact ⟨disjunct, by simpa [Node.bare] using isShaped_testNode text⟩
  | .last (.group inner) => Disjunction.isShaped_alternatives inner
  | .and first later => by
      let operands := first.operand :: later.operands
      have disjunct : IsShaped (.bare .disjunct [.bare .conjunction operands]) :=
        ⟨.bare .conjunction operands, rfl, .inr rfl⟩
      have conjunction : IsShaped (.bare .conjunction operands) :=
        ⟨Nat.succ_le_succ later.length_operands_pos,
          List.forall_mem_cons.mpr ⟨first.kind_operand, later.kind_operands⟩⟩
      rw [Conjunction.alternatives, List.flatMap_singleton, Node.nodes_eq, List.forall_mem_cons]
      refine ⟨disjunct, ?_⟩
      rw [Node.bare, List.flatMap_singleton, Node.nodes_eq, List.forall_mem_cons]
      refine ⟨conjunction, ?_⟩
      rw [Node.bare, List.flatMap_cons, List.forall_mem_append]
      exact ⟨Term.isShaped_operand first, Conjunction.isShaped_operands later⟩

theorem Conjunction.isShaped_operands : ∀ conjunction : Conjunction,
    ∀ node ∈ conjunction.operands.flatMap Node.nodes, node.IsShaped
  | .last term => by
      rw [Conjunction.operands, List.flatMap_singleton]
      exact Term.isShaped_operand term
  | .and first later => by
      rw [Conjunction.operands, List.flatMap_cons, List.forall_mem_append]
      exact ⟨Term.isShaped_operand first, Conjunction.isShaped_operands later⟩

theorem Term.isShaped_operand : ∀ term : Term, ∀ node ∈ term.operand.nodes, node.IsShaped
  | .test text => isShaped_testNode text
  | .group inner => by
      have group : IsShaped (.bare .group inner.alternatives) :=
        ⟨inner.alternatives_ne_nil, inner.kind_alternatives⟩
      rw [Term.operand, Node.nodes_eq, List.forall_mem_cons]
      exact ⟨group, Disjunction.isShaped_alternatives inner⟩

end

/-- The logic tree of a derivation has the children that the kinds call for, at every node. -/
theorem Disjunction.isShaped_tree (disjunction : Disjunction) :
    ∀ node ∈ disjunction.tree.nodes, node.IsShaped := by
  by_cases alone : ∃ text, disjunction = .test text
  · obtain ⟨text, rfl⟩ := alone
    exact isShaped_testNode text
  · have root : IsShaped (.bare .root disjunction.alternatives) :=
      ⟨disjunction.alternatives_ne_nil, disjunction.kind_alternatives⟩
    rw [Disjunction.tree_of_ne_test (by simpa using alone), Node.nodes_eq, List.forall_mem_cons]
    exact ⟨root, disjunction.isShaped_alternatives⟩

theorem Disjunction.isAtom_tree_iff (disjunction : Disjunction) :
    disjunction.tree.isAtom ↔ ∃ text, disjunction.tokens = [.atom text] := by
  by_cases alone : ∃ text, disjunction = .test text
  · obtain ⟨text, rfl⟩ := alone
    exact iff_of_true rfl ⟨text, rfl⟩
  · have compound : ∀ text, disjunction ≠ .test text := by simpa using alone
    rw [Disjunction.tree_of_ne_test compound]
    refine iff_of_false (by simp [Node.bare, Node.isAtom, Node.atom?]) ?_
    rintro ⟨text, lone⟩
    exact compound text (disjunction.eq_test_of_tokens lone)

theorem Disjunction.kind_tree (disjunction : Disjunction) :
    disjunction.tree.isAtom ∨ disjunction.tree.kind = .root := by
  by_cases alone : ∃ text, disjunction = .test text
  · obtain ⟨text, rfl⟩ := alone
    exact .inl rfl
  · rw [Disjunction.tree_of_ne_test (by simpa using alone)]
    exact .inr rfl

end Grammar

namespace Node

/-- No node owns a logic tree. -/
theorem isRoot_of_logicTree {tokens : List Token} {next after : UInt32} {tree : Node}
    (built : logicTree tokens next = .ok (tree, after)) : tree.isRoot := by
  obtain ⟨nestedTree, middle, nested_run, passes⟩ := Numbering.bind_eq_ok.mp built
  obtain ⟨disjoined, between, disjoined_run, conjoined_run⟩ := Numbering.bind_eq_ok.mp passes
  rw [eq_with_children_of_gatherConjunctions conjoined_run]
  rcases ofTokens_eq_ok nested_run with ⟨text, -, rfl⟩ | ⟨row, -, -, rfl⟩
  · obtain ⟨rfl, -⟩ : ⟨next, none, .atom text, []⟩ = disjoined ∧ middle = between := by
      simpa [gatherDisjuncts, isAtom, atom?] using disjoined_run
    rfl
  · obtain ⟨-, children, -, rfl⟩ := (gatherDisjuncts_eq_ok rfl).mp disjoined_run
    rfl

theorem canonical_of_logicTree {tokens : List Token} {next after : UInt32} {tree : Node}
    (built : logicTree tokens next = .ok (tree, after)) : tree.IsCanonical := by
  obtain ⟨-, disjunction, rfl⟩ := Grammar.exists_tokens_of_logicTree built
  have shape := Grammar.Disjunction.erased_of_logicTree built
  have top : tree.isAtom ∨ tree.kind = .root := by
    rw [← isAtom_erased, ← kind_erased, shape]
    exact disjunction.kind_tree
  refine ⟨top.imp_left fun test => ⟨test, isRoot_of_logicTree built⟩, ?_⟩
  rw [← shaped_erased, shape]
  exact disjunction.isShaped_tree

/--
Logic trees are canonical, and lone tests exactly for the tokens of a lone test. No connective is
left, a group stands only under a conjunction, and a conjunction never under a conjunction.
-/
theorem isCanonical_of_logicTree {tokens : List Token} {next after : UInt32} {tree : Node}
    (built : (logicTree tokens).run next = .ok (tree, after)) :
    tree.IsCanonical ∧ (tree.isAtom ↔ ∃ text, tokens = [.atom text]) ∧
      ∀ node ∈ tree.nodes, (∀ link, node.kind ≠ .connective link) ∧
        ∀ child ∈ node.children, (child.kind = .group → node.kind = .conjunction) ∧
          (child.kind = .conjunction → node.kind ≠ .conjunction) := by
  have canonical := canonical_of_logicTree built
  obtain ⟨-, disjunction, rfl⟩ := Grammar.exists_tokens_of_logicTree built
  refine ⟨canonical, ?_, ?_⟩
  · rw [← isAtom_erased, Grammar.Disjunction.erased_of_logicTree built]
    exact disjunction.isAtom_tree_iff
  · intro node member
    have shaped := canonical.shaped node member
    refine ⟨shaped.kind_ne_connective, fun child below => ⟨shaped.kind_of_group below, ?_⟩⟩
    intro joined
    simp [shaped.kind_of_conjunction below joined]

/-- The tree of `a and (b or c)` is canonical: its group stands under a conjunction. -/
theorem isCanonical_and_group :
    let tokens : List Token := [.atom ['a'], .connective .and, .opening, .atom ['b'],
      .connective .or, .atom ['c'], .closing]
    let group : Node := ⟨3, some 10, .group, [
      ⟨8, some 3, .disjunct, [⟨4, some 8, .atom ['b'], []⟩]⟩,
      ⟨9, some 3, .disjunct, [⟨6, some 9, .atom ['c'], []⟩]⟩]⟩
    let tree : Node := ⟨0, none, .root, [⟨7, some 0, .disjunct, [⟨10, some 7, .conjunction,
      [⟨1, some 10, .atom ['a'], []⟩, group]⟩]⟩]⟩
    (logicTree tokens).run 1 = .ok (tree, 11) ∧ tree.IsCanonical := by
  intro tokens group tree
  have built : (logicTree tokens).run 1 = .ok (tree, 11) := rfl
  exact ⟨built, (isCanonical_of_logicTree built).1⟩

end Node

end DataCondition
