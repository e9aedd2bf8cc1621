import DataCondition.Proofs.Tree.Counter
import DataCondition.Tree.Disjunction

/-!
# What gathering disjuncts does

Each equation tells when one step of the gathering succeeds, and with which nodes.
-/

namespace DataCondition

namespace Node

variable {owner disjunct : Nat} {next : UInt32} {node : Node} {rest : List Node}

/-- A lone group is replaced by its own disjuncts; any other run becomes one disjunct. -/
theorem disjuncts_cons_eq_ok {row : List Node} {after : UInt32} :
    disjuncts owner (node :: rest) next = .ok (row, after) ↔
      (node.kind = .group ∧ endsRun rest ∧ node.children ≠ [] ∧ ∃ spliced later middle,
        disjuncts owner node.children next = .ok (spliced, middle) ∧
          laterDisjuncts owner rest middle = .ok (later, after) ∧ row = spliced ++ later) ∨
      (node.kind ≠ .connective .or ∧ ¬(node.kind = .group ∧ endsRun rest) ∧
        ∃ first others later middle, member next node (next + 1) = .ok (first, middle) ∧
          members next owner rest middle = .ok ((others, later), after) ∧
            row = ⟨next, some owner, .disjunct, first :: others⟩ :: later) := by
  obtain ⟨id, parent, kind, children⟩ := node
  rw [disjuncts]
  by_cases separator : kind = .connective .or
  · simp [separator]
  · rw [if_neg separator]
    by_cases alone : kind = .group ∧ endsRun rest
    · rw [if_pos alone]
      cases children with
      | nil => simp [alone]
      | cons child children =>
          simp only [List.isEmpty_cons, Bool.false_eq_true, if_false, Numbering.bind_eq_ok]
          constructor
          · rintro ⟨spliced, middle, gathered, later, stop, continued, returned⟩
            cases returned
            exact .inl ⟨alone.1, alone.2, by simp, spliced, later, middle, gathered, continued, rfl⟩
          · rintro (⟨-, -, -, spliced, later, middle, gathered, continued, rfl⟩ | ⟨-, other, -⟩)
            · exact ⟨spliced, middle, gathered, later, after, continued, rfl⟩
            · exact (other alone).elim
    · rw [if_neg alone]
      simp only [Numbering.fresh_bind, Numbering.bind_eq_ok]
      constructor
      · rintro ⟨first, middle, moved, ⟨others, later⟩, stop, continued, returned⟩
        cases returned
        exact .inr ⟨separator, alone, first, others, later, middle, moved, continued, rfl⟩
      · rintro (⟨isGroup, ends, -⟩ | ⟨-, -, first, others, later, middle, moved, continued, rfl⟩)
        · exact (alone ⟨isGroup, ends⟩).elim
        · exact ⟨first, middle, moved, (others, later), after, continued, rfl⟩

@[simp]
theorem laterDisjuncts_nil : laterDisjuncts owner [] = pure [] := by
  rw [laterDisjuncts]

@[simp]
theorem laterDisjuncts_cons : laterDisjuncts owner (node :: rest) = disjuncts owner rest := by
  rw [laterDisjuncts]

theorem members_nil_eq_ok {others later : List Node} {after : UInt32} :
    members disjunct owner [] next = .ok ((others, later), after) ↔
      others = [] ∧ later = [] ∧ after = next := by
  rw [members]
  constructor
  · intro returned
    cases returned
    exact ⟨rfl, rfl, rfl⟩
  · rintro ⟨rfl, rfl, rfl⟩
    rfl

theorem members_separator_eq_ok {others later : List Node} {after : UInt32}
    (separator : node.isConnective .or) :
    members disjunct owner (node :: rest) next = .ok ((others, later), after) ↔
      others = [] ∧ disjuncts owner rest next = .ok (later, after) := by
  rw [members, if_pos separator, Numbering.bind_eq_ok]
  constructor
  · rintro ⟨found, middle, run, returned⟩
    cases returned
    exact ⟨rfl, run⟩
  · rintro ⟨rfl, run⟩
    exact ⟨later, after, run, rfl⟩

/-- The members of a disjunct end where the run ends, and the later disjuncts follow. -/
theorem members_of_endsRun {later : List Node} {after : UInt32} (ends : endsRun rest)
    (continued : laterDisjuncts owner rest next = .ok (later, after)) :
    members disjunct owner rest next = .ok (([], later), after) := by
  cases rest with
  | nil =>
      obtain ⟨rfl, rfl⟩ : [] = later ∧ next = after := by simpa using continued
      exact members_nil_eq_ok.mpr ⟨rfl, rfl, rfl⟩
  | cons node rest =>
      rw [laterDisjuncts_cons] at continued
      exact (members_separator_eq_ok ends).mpr ⟨rfl, continued⟩

theorem members_cons_eq_ok {others later : List Node} {after : UInt32}
    (inside : node.isConnective .or = false) :
    members disjunct owner (node :: rest) next = .ok ((others, later), after) ↔
      ∃ first members' middle, member disjunct node next = .ok (first, middle) ∧
        members disjunct owner rest middle = .ok ((members', later), after) ∧
          others = first :: members' := by
  rw [members, if_neg (by simp [inside])]
  simp only [Numbering.bind_eq_ok]
  constructor
  · rintro ⟨first, middle, moved, ⟨members', later'⟩, stop, continued, returned⟩
    cases returned
    exact ⟨first, members', middle, moved, continued, rfl⟩
  · rintro ⟨first, members', middle, moved, continued, rfl⟩
    exact ⟨first, middle, moved, (members', later), after, continued, rfl⟩

/-- A group that joins a disjunct has its own disjuncts gathered; any other node only moves. -/
theorem member_eq_ok {moved : Node} {after : UInt32} :
    member disjunct node next = .ok (moved, after) ↔
      (node.kind = .group ∧ node.children ≠ [] ∧ ∃ gathered,
        disjuncts node.id node.children next = .ok (gathered, after) ∧
          moved = ⟨node.id, some disjunct, .group, gathered⟩) ∨
      (node.kind ≠ .group ∧ moved = node.under disjunct ∧ after = next) := by
  obtain ⟨id, parent, kind, children⟩ := node
  rw [member]
  by_cases isGroup : kind = .group
  · rw [if_pos isGroup]
    cases children with
    | nil => simp [isGroup]
    | cons child children =>
        simp only [List.isEmpty_cons, Bool.false_eq_true, if_false, Numbering.bind_eq_ok]
        constructor
        · rintro ⟨gathered, middle, run, returned⟩
          cases returned
          exact .inl ⟨isGroup, by simp, gathered, run, rfl⟩
        · rintro (⟨-, -, gathered, run, rfl⟩ | ⟨other, -⟩)
          · exact ⟨gathered, after, run, rfl⟩
          · exact (other isGroup).elim
  · rw [if_neg isGroup]
    constructor
    · intro returned
      cases returned
      exact .inr ⟨isGroup, rfl, rfl⟩
    · rintro (⟨other, -⟩ | ⟨-, rfl, rfl⟩)
      · exact (isGroup other).elim
      · rfl

theorem member_of_ne_group (other : node.kind ≠ .group) :
    member disjunct node next = .ok (node.under disjunct, next) :=
  member_eq_ok.mpr (.inr ⟨other, rfl, rfl⟩)

/-- An `and` stays among the members of its disjunct. -/
theorem members_and {others later : List Node} {after : UInt32}
    (isAnd : node.kind = .connective .and)
    (continued : members disjunct owner rest next = .ok ((others, later), after)) :
    members disjunct owner (node :: rest) next =
      .ok ((node.under disjunct :: others, later), after) := by
  have inside : node.isConnective .or = false := by simp [isConnective, isAnd]
  have moved : member disjunct node next = .ok (node.under disjunct, next) :=
    member_of_ne_group (by simp [isAnd])
  exact (members_cons_eq_ok inside).mpr ⟨_, others, next, moved, continued, rfl⟩

theorem kind_of_member {moved : Node} {after : UInt32}
    (run : member disjunct node next = .ok (moved, after)) : moved.kind = node.kind := by
  rcases member_eq_ok.mp run with ⟨kind, -, gathered, -, rfl⟩ | ⟨-, rfl, -⟩
  · exact kind.symm
  · rfl

/-- The disjuncts of anything but a test are those of its children. -/
theorem gatherDisjuncts_eq_ok {result : Node} {after : UInt32} (compound : node.isAtom = false) :
    gatherDisjuncts node next = .ok (result, after) ↔
      node.children ≠ [] ∧ ∃ children,
        disjuncts node.id node.children next = .ok (children, after) ∧
          result = { node with children } := by
  rw [gatherDisjuncts, if_neg (by simp [compound])]
  by_cases none : node.children = []
  · simp [isLeaf, none]
  · rw [if_neg (by simpa [isLeaf] using none), Numbering.bind_eq_ok]
    constructor
    · rintro ⟨children, middle, run, returned⟩
      cases returned
      exact ⟨none, children, run, rfl⟩
    · rintro ⟨-, children, run, rfl⟩
      exact ⟨children, after, run, rfl⟩

end Node

end DataCondition
