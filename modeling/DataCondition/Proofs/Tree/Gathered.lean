import DataCondition.Proofs.Tree.Alternation
import DataCondition.Proofs.Tree.Nodes

/-!
# Gathering conjunctions again

Gathering leaves a tree as it is exactly if every disjunct that it visits has a sole operand. The
trees that it makes are so: an operand that stood alone is kept, and several became one conjunction.
-/

namespace DataCondition

namespace Node

variable {next after : UInt32} {id : Nat} {parent : Option Nat} {kind : Kind} {node : Node}
  {row children : List Node}

/-- Whether every disjunct that gathering visits has one operand and nothing else below it. -/
def IsGathered (tree : Node) : Prop :=
  ∀ node ∈ tree.visited, node.kind = .disjunct →
    ∃ operand, node.children = [operand] ∧ operand.isConnective .and = false

theorem isGathered_disjunct :
    IsGathered ⟨id, parent, .disjunct, children⟩ ↔ ∃ operand, children = [operand] ∧
      operand.isConnective .and = false ∧ operand.IsGathered := by
  rw [IsGathered, visited_eq, if_pos rfl, List.forall_mem_cons, imp_iff_right rfl]
  constructor
  · rintro ⟨⟨operand, alone, isOperand⟩, below⟩
    obtain rfl : children = [operand] := alone
    rw [operands_singleton isOperand, List.flatMap_singleton] at below
    exact ⟨operand, rfl, isOperand, below⟩
  · rintro ⟨operand, rfl, isOperand, below⟩
    rw [operands_singleton isOperand, List.flatMap_singleton]
    exact ⟨⟨operand, rfl, isOperand⟩, below⟩

theorem isGathered_other (other : kind ≠ .disjunct) :
    IsGathered ⟨id, parent, kind, children⟩ ↔ ∀ child ∈ children, child.IsGathered := by
  rw [IsGathered, visited_eq, if_neg other, List.forall_mem_cons, List.forall_mem_flatMap,
    and_iff_right fun isDisjunct => absurd isDisjunct other]
  rfl

/-- Whether a tree is gathered does not hang on its owner. -/
theorem isGathered_under {owner : Nat} : (node.under owner).IsGathered ↔ node.IsGathered := by
  rw [IsGathered, IsGathered, visited_eq, visited_eq node, List.forall_mem_cons,
    List.forall_mem_cons]
  rfl

theorem gatherAll_of_forall
    (kept : ∀ node ∈ row, gatherConjunctions node next = .ok (node, next)) :
    gatherAll row next = .ok (row, next) := by
  induction row with
  | nil => exact gatherAll_nil
  | cons node rest induction =>
      obtain ⟨first, others⟩ := List.forall_mem_cons.mp kept
      exact gatherAll_cons_eq_ok.mpr ⟨node, rest, next, first, induction others, rfl⟩

/-- A gathered tree stays as it is, and no number is drawn. -/
theorem IsGathered.gatherConjunctions_eq (gathered : node.IsGathered) (next : UInt32) :
    gatherConjunctions node next = .ok (node, next) := by
  induction node using Node.induction with
  | step id parent kind children induction =>
      refine gatherConjunctions_eq_ok.mpr (.inr ?_)
      by_cases isDisjunct : kind = .disjunct
      · subst isDisjunct
        obtain ⟨operand, rfl, isOperand, below⟩ := isGathered_disjunct.mp gathered
        have kept := induction operand (List.mem_singleton_self operand) below
        have run : gatherOperands [operand] next = .ok ([operand], next) := by
          rw [gatherOperands_eq, operands_singleton isOperand]
          exact gatherAll_of_forall (List.forall_mem_singleton.mpr kept)
        exact .inl ⟨rfl, (Alternates.alone isOperand).checked, by simp [isOperand], [operand], run,
          rfl⟩
      · have below := (isGathered_other isDisjunct).mp gathered
        refine .inr ⟨isDisjunct, children, gatherAll_of_forall ?_, rfl⟩
        exact fun child member => induction child member (below child member)

theorem isGathered_of_gatherAll {results : List Node}
    (each : ∀ node ∈ row, ∀ {start stop : UInt32} {result : Node},
      gatherConjunctions node start = .ok (result, stop) → result.IsGathered)
    (run : gatherAll row next = .ok (results, after)) : ∀ result ∈ results, result.IsGathered := by
  induction row generalizing next results with
  | nil =>
      obtain ⟨rfl, -⟩ : [] = results ∧ next = after := by simpa using run
      exact List.forall_mem_nil _
  | cons node rest induction =>
      obtain ⟨first, others, middle, first_run, others_run, rfl⟩ := gatherAll_cons_eq_ok.mp run
      rw [List.forall_mem_cons] at each ⊢
      exact ⟨each.1 first_run, induction each.2 others_run⟩

/-- What gathering makes is gathered. -/
theorem isGathered_of_gatherConjunctions {gathered : Node}
    (run : gatherConjunctions node next = .ok (gathered, after)) : gathered.IsGathered := by
  induction node using Node.induction generalizing next after gathered with
  | step id parent kind children induction =>
      rcases gatherConjunctions_eq_ok.mp run with
        ⟨isDisjunct, -, -, results, inside, rfl⟩ |
        ⟨isDisjunct, checked, apart, results, inside, rfl⟩ | ⟨other, results, inside, rfl⟩
      · cases isDisjunct
        rw [gatherOperands_eq] at inside
        have below := isGathered_of_gatherAll
          (fun child member => induction child (mem_of_mem_operands member)) inside
        have joined : IsGathered ⟨next, some id, .conjunction, results.map (under next)⟩ := by
          rw [isGathered_other (by simp)]
          simpa [isGathered_under] using below
        exact isGathered_disjunct.mpr ⟨_, rfl, rfl, joined⟩
      · cases isDisjunct
        obtain ⟨operand, rfl, isOperand⟩ :=
          (alternates_of_checkAlternation checked).eq_singleton apart
        obtain ⟨first, others, middle, first_run, others_run, rfl⟩ :=
          (gatherOperands_cons_eq_ok isOperand).mp inside
        obtain ⟨rfl, -⟩ : [] = others ∧ middle = after := by simpa using others_run
        have kept : first.isConnective .and = false := by
          rw [eq_with_children_of_gatherConjunctions first_run]
          exact isOperand
        have below := induction operand (List.mem_singleton_self operand) first_run
        exact isGathered_disjunct.mpr ⟨first, rfl, kept, below⟩
      · exact (isGathered_other other).mpr (isGathered_of_gatherAll induction inside)

/-- Exactly the gathered trees stay as they are. -/
theorem gatherConjunctions_eq_self_iff :
    gatherConjunctions node next = .ok (node, next) ↔ node.IsGathered :=
  ⟨isGathered_of_gatherConjunctions, fun gathered => gathered.gatherConjunctions_eq next⟩

/--
What gathering makes is gathered: gathering it again, from whatever number on, leaves it as it is
and draws no number.
-/
theorem gatherConjunctions_idempotent {gathered : Node}
    (run : (gatherConjunctions node).run next = .ok (gathered, after)) :
    gathered.IsGathered ∧
      ∀ other, (gatherConjunctions gathered).run other = .ok (gathered, other) := by
  have settled := isGathered_of_gatherConjunctions run
  exact ⟨settled, fun _ => gatherConjunctions_eq_self_iff.mpr settled⟩

/-- A conjunction in a group of a conjunction, and an `and` that no disjunct owns, stay so. -/
theorem gatherConjunctions_idempotent_nested :
    let inner : Node := ⟨5, some 3, .disjunct, [⟨6, none, .atom ['b'], []⟩,
      ⟨7, none, .connective .and, []⟩, ⟨8, none, .atom ['c'], []⟩]⟩
    let outer : Node := ⟨1, some 0, .disjunct, [⟨2, none, .atom ['a'], []⟩,
      ⟨4, none, .connective .and, []⟩, ⟨3, some 1, .group, [inner]⟩]⟩
    let tree : Node := ⟨0, none, .root, [outer, ⟨9, none, .connective .and, []⟩]⟩
    let gathered : Node := ⟨0, none, .root, [⟨1, some 0, .disjunct, [⟨10, some 1, .conjunction,
      [⟨2, some 10, .atom ['a'], []⟩, ⟨3, some 10, .group, [⟨5, some 3, .disjunct,
        [⟨11, some 5, .conjunction, [⟨6, some 11, .atom ['b'], []⟩,
          ⟨8, some 11, .atom ['c'], []⟩]⟩]⟩]⟩]⟩]⟩, ⟨9, none, .connective .and, []⟩]⟩
    (gatherConjunctions tree).run 10 = .ok (gathered, 12) ∧ gathered.IsGathered ∧
      (gatherConjunctions gathered).run 3 = .ok (gathered, 3) := by
  intro inner outer tree gathered
  have run : (gatherConjunctions tree).run 10 = .ok (gathered, 12) := rfl
  obtain ⟨settled, again⟩ := gatherConjunctions_idempotent run
  exact ⟨run, settled, again 3⟩

end Node

end DataCondition
