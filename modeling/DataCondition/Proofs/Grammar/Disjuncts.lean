import DataCondition.Proofs.Grammar.Tree
import DataCondition.Proofs.Tree.Disjunction

/-!
# Gathering the disjuncts of a derivation

In the tree of parentheses of a derivation all disjuncts are gathered, whatever its numbers are.
-/

namespace DataCondition

namespace Grammar

open Node (erasedAll)

theorem Disjunction.nested_ne_nil : ∀ disjunction : Disjunction, disjunction.nested ≠ []
  | .last (.last _) => by simp [Disjunction.nested, Conjunction.nested]
  | .last (.and _ _) => by simp [Disjunction.nested, Conjunction.nested]
  | .or _ _ => by simp [Disjunction.nested]

theorem Disjunction.ne_nil_of_nested {disjunction : Disjunction} {row : List Node}
    (shape : erasedAll row = disjunction.nested) : row ≠ [] := by
  intro none
  rw [none] at shape
  exact disjunction.nested_ne_nil shape.symm

theorem Term.isConnective_of_nested {term : Term} {node : Node} (shape : node.erased = term.nested)
    (link : Connective) : node.isConnective link = false := by
  rw [← Node.isConnective_erased, shape]
  cases term <;> rfl

theorem kind_of_link {link : Connective} {node : Node} (shape : node.erased = linkNode link) :
    node.kind = .connective link :=
  (Node.erased_eq_bare.mp shape).1

theorem Term.kind_ne_or {term : Term} {node : Node} (shape : node.erased = term.nested) :
    node.kind ≠ .connective .or := by
  simpa [Node.isConnective] using Term.isConnective_of_nested shape .or

theorem kind_ne_group_of_test {text : Text} {node : Node} (shape : node.erased = testNode text) :
    node.kind ≠ .group := by
  simp [(Node.erased_eq_bare.mp shape).1]

mutual

/-- A disjunction in the tree of parentheses has its disjuncts gathered. -/
theorem Disjunction.gather_nested {row : List Node} (owner : Nat) (next : UInt32) :
    ∀ disjunction : Disjunction, erasedAll row = disjunction.nested →
      ∃ gathered after, Node.disjuncts owner row next = .ok (gathered, after) ∧
        erasedAll gathered = disjunction.disjuncts
  | .last conjunction, shape => by
      have ends : Node.endsRun [] := rfl
      obtain ⟨gathered, middle, same, run⟩ :=
        Conjunction.gather_nested owner next conjunction shape ends
      refine ⟨gathered, middle, ?_, same⟩
      simpa using run [] middle (by simp)
  | .or first later, shape => by
      obtain ⟨front, back, rfl, front_shape, back_shape⟩ := Node.erasedAll_eq_append shape
      obtain ⟨separator, rest, rfl, separator_shape, rest_shape⟩ :=
        Node.erasedAll_eq_cons back_shape
      have ends : Node.endsRun (separator :: rest) := by
        simp [Node.endsRun, Node.isConnective, kind_of_link separator_shape]
      obtain ⟨gathered, middle, same, run⟩ :=
        Conjunction.gather_nested owner next first front_shape ends
      obtain ⟨others, after, continued, rest_same⟩ :=
        Disjunction.gather_nested owner middle later rest_shape
      refine ⟨gathered ++ others, after, run others after (by simpa using continued), ?_⟩
      simp [same, rest_same, Disjunction.disjuncts]

/-- The run of a conjunction becomes its disjuncts, and the disjuncts after it follow. -/
theorem Conjunction.gather_nested {row rest : List Node} (owner : Nat) (next : UInt32) :
    ∀ conjunction : Conjunction, erasedAll row = conjunction.nested → Node.endsRun rest →
      ∃ gathered middle, erasedAll gathered = conjunction.disjuncts ∧
        ∀ later after, Node.laterDisjuncts owner rest middle = .ok (later, after) →
          Node.disjuncts owner (row ++ rest) next = .ok (gathered ++ later, after)
  | .last (.test text), shape, ends => by
      obtain ⟨node, others, rfl, node_shape, others_shape⟩ := Node.erasedAll_eq_cons shape
      obtain rfl := Node.erasedAll_eq_nil.mp others_shape
      have other := kind_ne_group_of_test node_shape
      refine ⟨[⟨next, some owner, .disjunct, [node.under next]⟩], next + 1, ?_, ?_⟩
      · simp [Node.erased, Conjunction.disjuncts, node_shape, Term.nested]
      · intro later after continued
        have moved : Node.member next node (next + 1) = .ok (node.under next, next + 1) :=
          Node.member_of_ne_group other
        exact Node.disjuncts_cons_eq_ok.mpr (.inr ⟨Term.kind_ne_or node_shape,
          fun alone => other alone.1, _, [], later, _, moved,
          Node.members_of_endsRun ends continued, rfl⟩)
  | .last (.group inner), shape, ends => by
      obtain ⟨node, others, rfl, node_shape, others_shape⟩ := Node.erasedAll_eq_cons shape
      obtain rfl := Node.erasedAll_eq_nil.mp others_shape
      obtain ⟨kind, inside⟩ := Node.erased_eq_bare.mp node_shape
      obtain ⟨spliced, middle, run, same⟩ := Disjunction.gather_nested owner next inner inside
      refine ⟨spliced, middle, by rw [same, Conjunction.disjuncts], ?_⟩
      intro later after continued
      exact Node.disjuncts_cons_eq_ok.mpr (.inl ⟨kind, ends, Disjunction.ne_nil_of_nested inside,
        spliced, later, middle, run, continued, rfl⟩)
  | .and first others, shape, ends => by
      obtain ⟨node, back, rfl, node_shape, back_shape⟩ := Node.erasedAll_eq_cons shape
      obtain ⟨separator, operands, rfl, separator_shape, operands_shape⟩ :=
        Node.erasedAll_eq_cons back_shape
      obtain ⟨moved, middle, run, moved_shape⟩ :=
        Term.gather_nested next (next + 1) first node_shape
      obtain ⟨members, stop, members_shape, continue_run⟩ :=
        Conjunction.members_nested next owner middle others operands_shape ends
      have isAnd := kind_of_link separator_shape
      have apart : ¬Node.endsRun (separator :: (operands ++ rest)) := by
        simp [Node.endsRun, Node.isConnective, isAnd]
      refine ⟨[⟨next, some owner, .disjunct, moved :: separator.under next :: members⟩], stop,
        ?_, ?_⟩
      · simp [Node.erased, Conjunction.disjuncts, moved_shape, members_shape, separator_shape]
      · intro later after continued
        have followed := Node.members_and isAnd (continue_run later after continued)
        exact Node.disjuncts_cons_eq_ok.mpr (.inr ⟨Term.kind_ne_or node_shape,
          fun alone => apart alone.2, moved, _, later, middle, run, followed, rfl⟩)

/-- The terms of a conjunction become members of the disjunct that is being made. -/
theorem Conjunction.members_nested {row rest : List Node} (disjunct owner : Nat) (next : UInt32) :
    ∀ conjunction : Conjunction, erasedAll row = conjunction.nested → Node.endsRun rest →
      ∃ gathered middle, erasedAll gathered = conjunction.members ∧
        ∀ later after, Node.laterDisjuncts owner rest middle = .ok (later, after) →
          Node.members disjunct owner (row ++ rest) next = .ok ((gathered, later), after)
  | .last term, shape, ends => by
      obtain ⟨node, others, rfl, node_shape, others_shape⟩ := Node.erasedAll_eq_cons shape
      obtain rfl := Node.erasedAll_eq_nil.mp others_shape
      obtain ⟨moved, middle, run, moved_shape⟩ :=
        Term.gather_nested disjunct next term node_shape
      refine ⟨[moved], middle, by simp [moved_shape, Conjunction.members], ?_⟩
      intro later after continued
      exact (Node.members_cons_eq_ok (Term.isConnective_of_nested node_shape .or)).mpr
        ⟨moved, [], middle, run, Node.members_of_endsRun ends continued, rfl⟩
  | .and first others, shape, ends => by
      obtain ⟨node, back, rfl, node_shape, back_shape⟩ := Node.erasedAll_eq_cons shape
      obtain ⟨separator, operands, rfl, separator_shape, operands_shape⟩ :=
        Node.erasedAll_eq_cons back_shape
      obtain ⟨moved, middle, run, moved_shape⟩ :=
        Term.gather_nested disjunct next first node_shape
      obtain ⟨members, stop, members_shape, continue_run⟩ :=
        Conjunction.members_nested disjunct owner middle others operands_shape ends
      refine ⟨moved :: separator.under disjunct :: members, stop, ?_, ?_⟩
      · simp [Conjunction.members, moved_shape, members_shape, separator_shape]
      · intro later after continued
        have followed := Node.members_and (kind_of_link separator_shape)
          (continue_run later after continued)
        exact (Node.members_cons_eq_ok (Term.isConnective_of_nested node_shape .or)).mpr
          ⟨moved, _, middle, run, followed, rfl⟩

/-- A term becomes a member; the inside of a group has its own disjuncts gathered. -/
theorem Term.gather_nested {node : Node} (disjunct : Nat) (next : UInt32) :
    ∀ term : Term, node.erased = term.nested →
      ∃ moved after, Node.member disjunct node next = .ok (moved, after) ∧
        moved.erased = term.member
  | .test text, shape =>
      ⟨node.under disjunct, next, Node.member_of_ne_group (kind_ne_group_of_test shape),
        (Node.erased_under disjunct node).trans shape⟩
  | .group inner, shape => by
      obtain ⟨kind, inside⟩ := Node.erased_eq_bare.mp shape
      obtain ⟨gathered, after, run, same⟩ := Disjunction.gather_nested node.id next inner inside
      refine ⟨⟨node.id, some disjunct, .group, gathered⟩, after, ?_, ?_⟩
      · exact Node.member_eq_ok.mpr
          (.inl ⟨kind, Disjunction.ne_nil_of_nested inside, gathered, run, rfl⟩)
      · simp [Node.erased, same, Term.member]

end

end Grammar

end DataCondition
