import DataCondition.Proofs.Grammar.Tree
import DataCondition.Proofs.Tree.Conjunction
import DataCondition.Proofs.Tree.Disjunction

/-!
# Derivations of gathered rows

A row of tests, connectives and groups whose disjuncts and then conjunctions are gathered is the
row of a derivation. The induction follows the gathering of disjuncts; what the gathering of
conjunctions checks is a hypothesis about its result.
-/

namespace DataCondition

namespace Grammar

open Node (erasedAll allNested)

theorem Disjunction.nested_prepend (term : Term) (disjunction : Disjunction) :
    (disjunction.prepend term).nested = term.nested :: linkNode .and :: disjunction.nested := by
  cases disjunction <;> simp [Disjunction.prepend, Disjunction.nested, Conjunction.nested]

theorem erased_of_isConnective {node : Node} {link : Connective} (nested : node.isNested)
    (isLink : node.isConnective link) : node.erased = linkNode link := by
  obtain ⟨id, parent, kind, children⟩ := node
  obtain rfl : kind = .connective link := by simpa [Node.isConnective] using isLink
  obtain rfl : children = [] := by simpa [Node.isNested] using nested
  rfl

theorem nested_or {separator : Node} {rest : List Node} {later : Disjunction}
    (conjunction : Conjunction) (nested : separator.isNested) (isOr : separator.isConnective .or)
    (shape : later.nested = erasedAll rest) :
    (Disjunction.or conjunction later).nested =
      conjunction.nested ++ erasedAll (separator :: rest) := by
  simp [Disjunction.nested, shape, erased_of_isConnective nested isOr]

mutual

/-- A row whose disjuncts and conjunctions are gathered has a derivation. -/
theorem exists_disjunction : ∀ (row : List Node) {owner : Nat} {next after start : UInt32}
    {gathered : List Node} {final : List Node × UInt32}, allNested row →
    Node.disjuncts owner row next = .ok (gathered, after) →
    Node.gatherAll gathered start = .ok final →
    ∃ disjunction : Disjunction, disjunction.nested = erasedAll row
  | [], _, _, _, _, _, _, _, run, _ => by simp [Node.disjuncts] at run
  | ⟨id, parent, kind, children⟩ :: rest, owner, next, after, start, gathered, final, nested, run,
      conjoined => by
      obtain ⟨node_nested, rest_nested⟩ :
          (Node.mk id parent kind children).isNested ∧ allNested rest := by
        simpa [allNested] using nested
      rcases Node.disjuncts_cons_eq_ok.mp run with
        ⟨rfl, ends, -, spliced, later, middle, inner_run, later_run, rfl⟩ |
        ⟨separator, alone, first, others, later, middle, member_run, members_run, rfl⟩
      · obtain ⟨front, back, between, front_run, back_run, -⟩ :=
          Node.gatherAll_append_eq_ok.mp conjoined
        have children_nested : allNested children := by simpa [Node.isNested] using node_nested
        obtain ⟨inner, shape⟩ := exists_disjunction children children_nested inner_run front_run
        obtain ⟨disjunction, whole⟩ :=
          exists_later rest (.last (.group inner)) ends rest_nested later_run back_run
        refine ⟨disjunction, ?_⟩
        simp [whole, Conjunction.nested, Term.nested, shape, Node.erased]
      · obtain ⟨_, _, _, made_run, later_run, -⟩ := Node.gatherAll_cons_eq_ok.mp conjoined
        obtain ⟨alternating, _, _, operands_run⟩ :=
          Node.alternates_of_gatherConjunctions rfl made_run
        obtain ⟨operand, alternating⟩ := Node.checkAlternation_none_cons.mp alternating
        obtain ⟨_, _, _, first_run, others_run, -⟩ :=
          (Node.gatherOperands_cons_eq_ok operand).mp operands_run
        obtain ⟨term, shape⟩ := exists_term ⟨id, parent, kind, children⟩ node_nested member_run
          operand (by simpa [Node.isConnective] using separator) first_run
        rw [Node.erasedAll_cons, ← shape]
        exact exists_members rest term rest_nested members_run alternating others_run later_run
termination_by structural row => row

/-- What follows a conjunction is nothing or further conjunctions. -/
theorem exists_later : ∀ (rest : List Node) {owner : Nat} {next after start : UInt32}
    {gathered : List Node} {final : List Node × UInt32} (conjunction : Conjunction),
    Node.endsRun rest → allNested rest →
    Node.laterDisjuncts owner rest next = .ok (gathered, after) →
    Node.gatherAll gathered start = .ok final →
    ∃ disjunction : Disjunction, disjunction.nested = conjunction.nested ++ erasedAll rest
  | [], _, _, _, _, _, _, conjunction, _, _, _, _ =>
      ⟨.last conjunction, by simp [Disjunction.nested]⟩
  | separator :: rest, owner, next, after, start, gathered, final, conjunction, ends, nested, run,
      conjoined => by
      obtain ⟨separator_nested, rest_nested⟩ : separator.isNested ∧ allNested rest := by
        simpa [allNested] using nested
      rw [Node.laterDisjuncts_cons] at run
      obtain ⟨later, shape⟩ := exists_disjunction rest rest_nested run conjoined
      exact ⟨.or conjunction later, nested_or conjunction separator_nested ends shape⟩
termination_by structural row => row

/-- What follows a term is nothing, further terms, or further conjunctions. -/
theorem exists_members : ∀ (rest : List Node) {disjunct owner : Nat}
    {next after start start' : UInt32}
    {others later : List Node} {left : Node} {operands final : List Node × UInt32} (term : Term),
    allNested rest → Node.members disjunct owner rest next = .ok ((others, later), after) →
    Node.checkAlternation (some left) others = .ok () →
    Node.gatherOperands others start = .ok operands → Node.gatherAll later start' = .ok final →
    ∃ disjunction : Disjunction, disjunction.nested = term.nested :: erasedAll rest
  | [], _, _, _, _, _, _, _, _, _, _, _, term, _, _, _, _, _ =>
      ⟨.last (.last term), by simp [Disjunction.nested, Conjunction.nested]⟩
  | separator :: rest, disjunct, owner, next, after, start, start', others, later, left, operands,
      final, term, nested, run, alternating, operands_run, later_run => by
      obtain ⟨separator_nested, rest_nested⟩ : separator.isNested ∧ allNested rest := by
        simpa [allNested] using nested
      cases ends : separator.isConnective .or with
      | true =>
          obtain ⟨rfl, later_gathered⟩ := (Node.members_separator_eq_ok ends).mp run
          obtain ⟨disjunction, shape⟩ :=
            exists_disjunction rest rest_nested later_gathered later_run
          exact ⟨.or (.last term) disjunction, nested_or _ separator_nested ends shape⟩
      | false =>
          obtain ⟨moved, members, middle, moved_run, members_run, rfl⟩ :=
            (Node.members_cons_eq_ok ends).mp run
          obtain ⟨isAnd, alternating⟩ := Node.checkAlternation_some_cons.mp alternating
          have separator_isAnd : separator.isConnective .and := by
            simpa [Node.isConnective, Node.kind_of_member moved_run] using isAnd
          rw [Node.gatherOperands_separator isAnd] at operands_run
          obtain ⟨disjunction, shape⟩ := exists_operands rest rest_nested members_run alternating
            operands_run later_run
          refine ⟨disjunction.prepend term, ?_⟩
          simp [Disjunction.nested_prepend, shape,
            erased_of_isConnective separator_nested separator_isAnd]
termination_by structural row => row

/-- What follows an `and` begins with a term. -/
theorem exists_operands : ∀ (row : List Node) {disjunct owner : Nat}
    {next after start start' : UInt32}
    {others later : List Node} {operands final : List Node × UInt32}, allNested row →
    Node.members disjunct owner row next = .ok ((others, later), after) →
    Node.checkAlternation none others = .ok () →
    Node.gatherOperands others start = .ok operands → Node.gatherAll later start' = .ok final →
    ∃ disjunction : Disjunction, disjunction.nested = erasedAll row
  | [], _, _, _, _, _, _, _, _, _, _, _, run, alternating, _, _ => by
      obtain ⟨rfl, -⟩ := Node.members_nil_eq_ok.mp run
      simp [Node.checkAlternation] at alternating
  | node :: rest, disjunct, owner, next, after, start, start', others, later, operands, final,
      nested, run, alternating, operands_run, later_run => by
      obtain ⟨node_nested, rest_nested⟩ : node.isNested ∧ allNested rest := by
        simpa [allNested] using nested
      cases ends : node.isConnective .or with
      | true =>
          obtain ⟨rfl, -⟩ := (Node.members_separator_eq_ok ends).mp run
          simp [Node.checkAlternation] at alternating
      | false =>
          obtain ⟨moved, members, middle, moved_run, members_run, rfl⟩ :=
            (Node.members_cons_eq_ok ends).mp run
          obtain ⟨operand, alternating⟩ := Node.checkAlternation_none_cons.mp alternating
          obtain ⟨_, _, _, first_run, others_run, -⟩ :=
            (Node.gatherOperands_cons_eq_ok operand).mp operands_run
          obtain ⟨term, shape⟩ := exists_term node node_nested moved_run operand ends first_run
          rw [Node.erasedAll_cons, ← shape]
          exact exists_members rest term rest_nested members_run alternating others_run later_run
termination_by structural row => row

/-- A member that is no connective is a term. -/
theorem exists_term : ∀ (node : Node) {disjunct : Nat} {next after start : UInt32} {moved : Node}
    {final : Node × UInt32}, node.isNested →
    Node.member disjunct node next = .ok (moved, after) → moved.isConnective .and = false →
    node.isConnective .or = false → Node.gatherConjunctions moved start = .ok final →
    ∃ term : Term, term.nested = node.erased
  | ⟨id, parent, kind, children⟩, disjunct, next, after, start, moved, final, nested, run, operand,
      inside, conjoined => by
      rcases Node.member_eq_ok.mp run with ⟨rfl, -, gathered, inner_run, rfl⟩ | ⟨other, rfl, rfl⟩
      · have children_nested : allNested children := by simpa [Node.isNested] using nested
        obtain ⟨result, stop⟩ := final
        rcases Node.gatherConjunctions_eq_ok.mp conjoined with
          ⟨kind, -⟩ | ⟨kind, -⟩ | ⟨-, others, others_run, -⟩
        · cases kind
        · cases kind
        · obtain ⟨inner, shape⟩ := exists_disjunction children children_nested inner_run others_run
          exact ⟨.group inner, by simp [Term.nested, Node.erased, shape]⟩
      · cases kind with
        | atom text =>
            obtain rfl : children = [] := by simpa [Node.isNested] using nested
            exact ⟨.test text, by simp [Term.nested, Node.erased, testNode]⟩
        | connective link =>
            cases link <;> simp [Node.isConnective, Node.under] at operand inside
        | group => exact (other rfl).elim
        | root | disjunct | conjunction => simp [Node.isNested] at nested
termination_by structural node => node

end

end Grammar

end DataCondition
