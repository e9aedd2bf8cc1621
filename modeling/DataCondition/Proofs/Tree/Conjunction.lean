import DataCondition.Proofs.Tree.Counter
import DataCondition.Tree.Conjunction

/-!
# What gathering conjunctions does

Each equation tells when one step of the gathering succeeds, and with which nodes.
-/

namespace DataCondition

namespace Node

variable {next : UInt32} {node : Node} {rest : List Node}

theorem checkAlternation_none_cons :
    checkAlternation none (node :: rest) = .ok () ↔
      node.isConnective .and = false ∧ checkAlternation (some node) rest = .ok () := by
  rw [checkAlternation]
  by_cases isAnd : node.isConnective .and <;> simp [isAnd]

theorem checkAlternation_some_cons {operand : Node} :
    checkAlternation (some operand) (node :: rest) = .ok () ↔
      node.isConnective .and = true ∧ checkAlternation none rest = .ok () := by
  rw [checkAlternation]
  by_cases isAnd : node.isConnective .and <;> simp [isAnd]

/-- The members of a disjunct must alternate; with an `and` among them they become one node. -/
theorem gatherConjunctions_eq_ok {gathered : Node} {after : UInt32} :
    gatherConjunctions node next = .ok (gathered, after) ↔
      (node.kind = .disjunct ∧ checkAlternation none node.children = .ok () ∧
        node.children.any (isConnective .and) ∧ ∃ operands,
          gatherOperands node.children (next + 1) = .ok (operands, after) ∧
            gathered = { node with children :=
              [⟨next, some node.id, .conjunction, operands.map (under next)⟩] }) ∨
      (node.kind = .disjunct ∧ checkAlternation none node.children = .ok () ∧
        ¬node.children.any (isConnective .and) ∧ ∃ operands,
          gatherOperands node.children next = .ok (operands, after) ∧
            gathered = { node with children := operands }) ∨
      (node.kind ≠ .disjunct ∧ ∃ children, gatherAll node.children next = .ok (children, after) ∧
        gathered = { node with children }) := by
  obtain ⟨id, parent, kind, children⟩ := node
  rw [gatherConjunctions]
  by_cases isDisjunct : kind = .disjunct
  · rw [if_pos isDisjunct]
    simp only [Numbering.bind_eq_ok, Numbering.lift_eq_ok]
    by_cases joined : children.any (isConnective .and)
    · simp only [if_pos joined, Numbering.fresh_bind, Numbering.bind_eq_ok]
      constructor
      · rintro ⟨_, _, ⟨checked, rfl⟩, operands, stop, run, returned⟩
        cases returned
        exact .inl ⟨isDisjunct, checked, joined, operands, run, rfl⟩
      · rintro (⟨-, checked, -, operands, run, rfl⟩ | ⟨-, -, apart, -⟩ | ⟨other, -⟩)
        · exact ⟨(), next, ⟨checked, rfl⟩, operands, after, run, rfl⟩
        · exact (apart joined).elim
        · exact (other isDisjunct).elim
    · simp only [if_neg joined, Numbering.bind_eq_ok]
      constructor
      · rintro ⟨_, _, ⟨checked, rfl⟩, operands, stop, run, returned⟩
        cases returned
        exact .inr (.inl ⟨isDisjunct, checked, joined, operands, run, rfl⟩)
      · rintro (⟨-, -, together, -⟩ | ⟨-, checked, -, operands, run, rfl⟩ | ⟨other, -⟩)
        · exact (joined together).elim
        · exact ⟨(), next, ⟨checked, rfl⟩, operands, after, run, rfl⟩
        · exact (other isDisjunct).elim
  · rw [if_neg isDisjunct, Numbering.bind_eq_ok]
    constructor
    · rintro ⟨children', stop, run, returned⟩
      cases returned
      exact .inr (.inr ⟨isDisjunct, children', run, rfl⟩)
    · rintro (⟨other, -⟩ | ⟨other, -⟩ | ⟨-, children', run, rfl⟩)
      · exact (isDisjunct other).elim
      · exact (isDisjunct other).elim
      · exact ⟨children', after, run, rfl⟩

/-- Gathering changes nothing of a node but what is below it. -/
theorem eq_with_children_of_gatherConjunctions {gathered : Node} {after : UInt32}
    (run : gatherConjunctions node next = .ok (gathered, after)) :
    gathered = { node with children := gathered.children } := by
  rcases gatherConjunctions_eq_ok.mp run with
    ⟨-, -, -, operands, -, rfl⟩ | ⟨-, -, -, operands, -, rfl⟩ | ⟨-, children, -, rfl⟩
  · rfl
  · rfl
  · rfl

theorem alternates_of_gatherConjunctions {result : Node × UInt32}
    (isDisjunct : node.kind = .disjunct) (run : gatherConjunctions node next = .ok result) :
    checkAlternation none node.children = .ok () ∧
      ∃ start operands, gatherOperands node.children start = .ok operands := by
  obtain ⟨gathered, after⟩ := result
  rcases gatherConjunctions_eq_ok.mp run with
    ⟨-, checked, -, operands, inside, -⟩ | ⟨-, checked, -, operands, inside, -⟩ | ⟨other, -⟩
  · exact ⟨checked, next + 1, (operands, after), inside⟩
  · exact ⟨checked, next, (operands, after), inside⟩
  · exact (other isDisjunct).elim

@[simp]
theorem gatherOperands_nil : gatherOperands [] next = .ok ([], next) := by
  rw [gatherOperands]
  rfl

theorem gatherOperands_separator (separator : node.isConnective .and = true) :
    gatherOperands (node :: rest) = gatherOperands rest := by
  rw [gatherOperands, if_pos separator]

theorem gatherOperands_cons_eq_ok {operands : List Node} {after : UInt32}
    (operand : node.isConnective .and = false) :
    gatherOperands (node :: rest) next = .ok (operands, after) ↔
      ∃ first others middle, gatherConjunctions node next = .ok (first, middle) ∧
        gatherOperands rest middle = .ok (others, after) ∧ operands = first :: others := by
  rw [gatherOperands, if_neg (by simp [operand])]
  simp only [Numbering.bind_eq_ok]
  constructor
  · rintro ⟨first, middle, run, others, stop, continued, returned⟩
    cases returned
    exact ⟨first, others, middle, run, continued, rfl⟩
  · rintro ⟨first, others, middle, run, continued, rfl⟩
    exact ⟨first, middle, run, others, after, continued, rfl⟩

/-- An operand, an `and` and the operands after it. -/
theorem gatherOperands_and {separator first : Node} {others : List Node} {middle after : UInt32}
    (operand : node.isConnective .and = false) (isAnd : separator.isConnective .and = true)
    (run : gatherConjunctions node next = .ok (first, middle))
    (continued : gatherOperands rest middle = .ok (others, after)) :
    gatherOperands (node :: separator :: rest) next = .ok (first :: others, after) := by
  refine (gatherOperands_cons_eq_ok operand).mpr ⟨first, others, middle, run, ?_, rfl⟩
  rw [gatherOperands_separator isAnd]
  exact continued

@[simp]
theorem gatherAll_nil : gatherAll [] next = .ok ([], next) := by
  rw [gatherAll]
  rfl

theorem gatherAll_cons_eq_ok {gathered : List Node} {after : UInt32} :
    gatherAll (node :: rest) next = .ok (gathered, after) ↔
      ∃ first others middle, gatherConjunctions node next = .ok (first, middle) ∧
        gatherAll rest middle = .ok (others, after) ∧ gathered = first :: others := by
  rw [gatherAll]
  simp only [Numbering.bind_eq_ok]
  constructor
  · rintro ⟨first, middle, run, others, stop, continued, returned⟩
    cases returned
    exact ⟨first, others, middle, run, continued, rfl⟩
  · rintro ⟨first, others, middle, run, continued, rfl⟩
    exact ⟨first, middle, run, others, after, continued, rfl⟩

theorem gatherAll_append_eq_ok {left right gathered : List Node} {after : UInt32} :
    gatherAll (left ++ right) next = .ok (gathered, after) ↔
      ∃ front back middle, gatherAll left next = .ok (front, middle) ∧
        gatherAll right middle = .ok (back, after) ∧ gathered = front ++ back := by
  induction left generalizing next gathered with
  | nil =>
      simp only [List.nil_append, gatherAll_nil]
      constructor
      · intro run
        exact ⟨[], gathered, next, rfl, run, rfl⟩
      · rintro ⟨front, back, middle, none, run, rfl⟩
        cases none
        exact run
  | cons node rest induction =>
      simp only [List.cons_append, gatherAll_cons_eq_ok, induction]
      constructor
      · rintro ⟨first, others, middle, run, ⟨front, back, stop, ran, continued, rfl⟩, rfl⟩
        exact ⟨first :: front, back, stop, ⟨first, front, middle, run, ran, rfl⟩, continued, rfl⟩
      · rintro ⟨front, back, stop, ⟨first, others, middle, run, ran, rfl⟩, continued, rfl⟩
        exact ⟨first, others ++ back, middle, run, ⟨others, back, stop, ran, continued, rfl⟩, rfl⟩

end Node

end DataCondition
