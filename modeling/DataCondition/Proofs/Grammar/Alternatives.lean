import DataCondition.Proofs.Grammar.Tree
import DataCondition.Proofs.Tree.Conjunction

/-!
# Gathering the conjunctions of a derivation

In the disjuncts of a derivation all conjunctions are gathered, whatever their numbers are.
-/

namespace DataCondition

namespace Grammar

open Node (erasedAll)

theorem Term.isConnective_of_member {term : Term} {node : Node} (shape : node.erased = term.member)
    (link : Connective) : node.isConnective link = false := by
  rw [← Node.isConnective_erased, shape]
  cases term <;> rfl

theorem isConnective_and_of_link {node : Node} (shape : node.erased = linkNode .and) :
    node.isConnective .and = true := by
  rw [← Node.isConnective_erased, shape]
  rfl

/-- The members of a disjunct alternate. -/
theorem Conjunction.alternates {row : List Node} : ∀ conjunction : Conjunction,
    erasedAll row = conjunction.members → Node.checkAlternation none row = .ok ()
  | .last term, shape => by
      obtain ⟨node, others, rfl, node_shape, others_shape⟩ := Node.erasedAll_eq_cons shape
      obtain rfl := Node.erasedAll_eq_nil.mp others_shape
      simp [Node.checkAlternation, Term.isConnective_of_member node_shape]
  | .and first later, shape => by
      obtain ⟨node, back, rfl, node_shape, back_shape⟩ := Node.erasedAll_eq_cons shape
      obtain ⟨separator, rest, rfl, separator_shape, rest_shape⟩ :=
        Node.erasedAll_eq_cons back_shape
      have checked := Conjunction.alternates later rest_shape
      simpa [Node.checkAlternation, Term.isConnective_of_member node_shape,
        isConnective_and_of_link separator_shape] using checked

mutual

/-- The disjuncts of a disjunction have their conjunctions gathered. -/
theorem Disjunction.gather_disjuncts {row : List Node} (next : UInt32) :
    ∀ disjunction : Disjunction, erasedAll row = disjunction.disjuncts →
      ∃ gathered after, Node.gatherAll row next = .ok (gathered, after) ∧
        erasedAll gathered = disjunction.alternatives
  | .last conjunction, shape => Conjunction.gather_disjuncts next conjunction shape
  | .or first later, shape => by
      obtain ⟨front, back, rfl, front_shape, back_shape⟩ := Node.erasedAll_eq_append shape
      obtain ⟨gathered, middle, run, same⟩ := Conjunction.gather_disjuncts next first front_shape
      obtain ⟨others, after, continued, rest_same⟩ :=
        Disjunction.gather_disjuncts middle later back_shape
      refine ⟨gathered ++ others, after, ?_, ?_⟩
      · exact Node.gatherAll_append_eq_ok.mpr ⟨gathered, others, middle, run, continued, rfl⟩
      · simp [same, rest_same, Disjunction.alternatives]

theorem Conjunction.gather_disjuncts {row : List Node} (next : UInt32) :
    ∀ conjunction : Conjunction, erasedAll row = conjunction.disjuncts →
      ∃ gathered after, Node.gatherAll row next = .ok (gathered, after) ∧
        erasedAll gathered = conjunction.alternatives
  | .last (.test text), shape => by
      obtain ⟨node, others, rfl, node_shape, others_shape⟩ := Node.erasedAll_eq_cons shape
      obtain rfl := Node.erasedAll_eq_nil.mp others_shape
      obtain ⟨kind, inside⟩ := Node.erased_eq_bare.mp node_shape
      have members : erasedAll node.children = (Conjunction.last (.test text)).members := inside
      obtain ⟨leaf, rest, children, leaf_shape, rest_shape⟩ := Node.erasedAll_eq_cons inside
      obtain rfl := Node.erasedAll_eq_nil.mp rest_shape
      have leaf_member : leaf.erased = (Term.test text).member := leaf_shape
      have operand := Term.isConnective_of_member leaf_member .and
      obtain ⟨gathered, after, run, same⟩ := Term.gather_member next (.test text) leaf_member
      have operands : Node.gatherOperands node.children next = .ok ([gathered], after) := by
        rw [children]
        exact (Node.gatherOperands_cons_eq_ok operand).mpr
          ⟨gathered, [], after, run, Node.gatherOperands_nil, rfl⟩
      have apart : ¬node.children.any (Node.isConnective .and) := by
        simp [children, operand]
      refine ⟨[{ node with children := [gathered] }], after, ?_, ?_⟩
      · exact Node.gatherAll_cons_eq_ok.mpr ⟨_, [], after, Node.gatherConjunctions_eq_ok.mpr
          (.inr (.inl ⟨kind, Conjunction.alternates _ members, apart, _, operands, rfl⟩)),
          Node.gatherAll_nil, rfl⟩
      · simp [Node.erased, kind, same, Conjunction.alternatives, Term.operand]
  | .last (.group inner), shape => Disjunction.gather_disjuncts next inner shape
  | .and first later, shape => by
      obtain ⟨node, others, rfl, node_shape, others_shape⟩ := Node.erasedAll_eq_cons shape
      obtain rfl := Node.erasedAll_eq_nil.mp others_shape
      obtain ⟨kind, inside⟩ := Node.erased_eq_bare.mp node_shape
      have members : erasedAll node.children = (Conjunction.and first later).members := inside
      obtain ⟨term, back, children, term_shape, back_shape⟩ := Node.erasedAll_eq_cons inside
      obtain ⟨separator, rest, rfl, separator_shape, rest_shape⟩ :=
        Node.erasedAll_eq_cons back_shape
      have isAnd := isConnective_and_of_link separator_shape
      obtain ⟨gathered, middle, run, same⟩ := Term.gather_member (next + 1) first term_shape
      obtain ⟨others, after, continued, rest_same⟩ :=
        Conjunction.gather_members middle later rest_shape
      have operands : Node.gatherOperands node.children (next + 1) =
          .ok (gathered :: others, after) := by
        rw [children]
        exact Node.gatherOperands_and (Term.isConnective_of_member term_shape .and) isAnd run
          continued
      have joined : node.children.any (Node.isConnective .and) := by
        simp [children, isAnd]
      refine ⟨[{ node with children := [⟨next, some node.id, .conjunction,
        (gathered :: others).map (Node.under next)⟩] }], after, ?_, ?_⟩
      · exact Node.gatherAll_cons_eq_ok.mpr ⟨_, [], after, Node.gatherConjunctions_eq_ok.mpr
          (.inl ⟨kind, Conjunction.alternates _ members, joined, _, operands, rfl⟩),
          Node.gatherAll_nil, rfl⟩
      · simp [Node.erased, kind, same, rest_same, Conjunction.alternatives]

/-- The operands among the members of a disjunct have their own conjunctions gathered. -/
theorem Conjunction.gather_members {row : List Node} (next : UInt32) :
    ∀ conjunction : Conjunction, erasedAll row = conjunction.members →
      ∃ gathered after, Node.gatherOperands row next = .ok (gathered, after) ∧
        erasedAll gathered = conjunction.operands
  | .last term, shape => by
      obtain ⟨node, others, rfl, node_shape, others_shape⟩ := Node.erasedAll_eq_cons shape
      obtain rfl := Node.erasedAll_eq_nil.mp others_shape
      obtain ⟨gathered, after, run, same⟩ := Term.gather_member next term node_shape
      refine ⟨[gathered], after, ?_, by simp [same, Conjunction.operands]⟩
      exact (Node.gatherOperands_cons_eq_ok (Term.isConnective_of_member node_shape .and)).mpr
        ⟨gathered, [], after, run, Node.gatherOperands_nil, rfl⟩
  | .and first later, shape => by
      obtain ⟨node, back, rfl, node_shape, back_shape⟩ := Node.erasedAll_eq_cons shape
      obtain ⟨separator, rest, rfl, separator_shape, rest_shape⟩ :=
        Node.erasedAll_eq_cons back_shape
      obtain ⟨gathered, middle, run, same⟩ := Term.gather_member next first node_shape
      obtain ⟨others, after, continued, rest_same⟩ :=
        Conjunction.gather_members middle later rest_shape
      refine ⟨gathered :: others, after, ?_, by simp [same, rest_same, Conjunction.operands]⟩
      exact Node.gatherOperands_and (Term.isConnective_of_member node_shape .and)
        (isConnective_and_of_link separator_shape) run continued

theorem Term.gather_member {node : Node} (next : UInt32) :
    ∀ term : Term, node.erased = term.member →
      ∃ gathered after, Node.gatherConjunctions node next = .ok (gathered, after) ∧
        gathered.erased = term.operand
  | .test text, shape => by
      obtain ⟨kind, inside⟩ := Node.erased_eq_bare.mp shape
      obtain none := Node.erasedAll_eq_nil.mp inside
      refine ⟨{ node with children := [] }, next, ?_, ?_⟩
      · exact Node.gatherConjunctions_eq_ok.mpr
          (.inr (.inr ⟨by simp [kind], [], by simp [none], rfl⟩))
      · simp [Node.erased, kind, Term.operand, testNode]
  | .group inner, shape => by
      obtain ⟨kind, inside⟩ := Node.erased_eq_bare.mp shape
      obtain ⟨gathered, after, run, same⟩ := Disjunction.gather_disjuncts next inner inside
      refine ⟨{ node with children := gathered }, after, ?_, ?_⟩
      · exact Node.gatherConjunctions_eq_ok.mpr
          (.inr (.inr ⟨by simp [kind], gathered, run, rfl⟩))
      · simp [Node.erased, kind, same, Term.operand]

end

end Grammar

end DataCondition
