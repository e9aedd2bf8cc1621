import DataCondition.Proofs.Gaps
import DataCondition.Proofs.Tree.Conjunction
import DataCondition.Proofs.Tree.Nodes

/-!
# Where gathering conjunctions fails

The children of a disjunct must be operands with an `and` between each two of them. A tree is
visited owners first, and the first disjunct that breaks this rule decides which error it is.
-/

namespace DataCondition

namespace Node

/-! ## Alternation -/

/-- Operands with an `and` between each two of them, and at least one operand. -/
inductive Alternates : List Node → Prop
  | alone {operand : Node} : operand.isConnective .and = false → Alternates [operand]
  | joined {operand separator : Node} {rest : List Node} : operand.isConnective .and = false →
      separator.isConnective .and = true → Alternates rest →
      Alternates (operand :: separator :: rest)

theorem Alternates.checked {row : List Node} (alternates : Alternates row) :
    checkAlternation none row = .ok () := by
  induction alternates with
  | alone isOperand => exact checkAlternation_none_cons.mpr ⟨isOperand, rfl⟩
  | joined isOperand isAnd _ induction =>
      exact checkAlternation_none_cons.mpr
        ⟨isOperand, checkAlternation_some_cons.mpr ⟨isAnd, induction⟩⟩

theorem alternates_of_checkAlternation : ∀ {row : List Node},
    checkAlternation none row = .ok () → Alternates row
  | [], checked => by
      rw [checkAlternation] at checked
      cases checked
  | [_], checked => .alone (checkAlternation_none_cons.mp checked).1
  | _ :: _ :: _, checked => by
      obtain ⟨isOperand, others⟩ := checkAlternation_none_cons.mp checked
      obtain ⟨isAnd, later⟩ := checkAlternation_some_cons.mp others
      exact .joined isOperand isAnd (alternates_of_checkAlternation later)

theorem checkAlternation_eq_ok {row : List Node} :
    checkAlternation none row = .ok () ↔ Alternates row :=
  ⟨alternates_of_checkAlternation, Alternates.checked⟩

/-- The operands of a row. -/
def operands (row : List Node) : List Node := row.filter fun node => !node.isConnective .and

theorem mem_of_mem_operands {node : Node} {row : List Node} (member : node ∈ operands row) :
    node ∈ row :=
  List.mem_of_mem_filter member

theorem operands_separator {node : Node} {rest : List Node} (isAnd : node.isConnective .and) :
    operands (node :: rest) = operands rest :=
  List.filter_cons_of_neg (by simp [isAnd])

theorem operands_cons {node : Node} {rest : List Node}
    (isOperand : node.isConnective .and = false) :
    operands (node :: rest) = node :: operands rest :=
  List.filter_cons_of_pos (by simp [isOperand])

theorem operands_singleton {node : Node} (isOperand : node.isConnective .and = false) :
    operands [node] = [node] :=
  operands_cons isOperand

/-- Where operands alternate with `and` and there is no `and`, there is one operand. -/
theorem Alternates.eq_singleton {row : List Node} (alternates : Alternates row)
    (apart : ¬row.any (isConnective .and)) :
    ∃ operand, row = [operand] ∧ operand.isConnective .and = false := by
  cases alternates with
  | alone isOperand => exact ⟨_, rfl, isOperand⟩
  | joined _ isAnd _ => simp [isAnd] at apart

/-- The operands of a row are gathered as a row of their own. -/
theorem gatherOperands_eq (row : List Node) : gatherOperands row = gatherAll (operands row) := by
  induction row with
  | nil => rw [gatherOperands, operands, List.filter_nil, gatherAll]
  | cons node rest induction =>
      rw [gatherOperands, induction]
      by_cases isAnd : node.isConnective .and
      · rw [if_pos isAnd, operands_separator isAnd]
      · rw [if_neg isAnd, operands_cons (by simpa using isAnd), gatherAll]

/-- The operand next to a gap, if no `and` and not the end is there. -/
def operand? (neighbour : Option Node) : Option Node :=
  neighbour.filter fun node => !node.isConnective .and

/--
Whether an operand is due at this gap of a row, at the start or behind an `and`, but an `and` or the
end comes.
-/
def LacksOperand (row : List Node) (gap : Nat) : Prop :=
  operand? (row.take gap).getLast? = none ∧ operand? (row.drop gap).head? = none

/-- Whether two operands meet at this gap of a row. -/
def Meet (row : List Node) (gap : Nat) (left right : Node) : Prop :=
  operand? (row.take gap).getLast? = some left ∧ operand? (row.drop gap).head? = some right

/-- The fault at the gap between two rows of nodes. -/
def faultBetween? (front back : List Node) : Option Error :=
  match operand? front.getLast?, operand? back.head? with
  | none, none => some (.missingOperand .and)
  | some left, some right => some (.missingConnective left.label right.label)
  | _, _ => none

theorem faultBetween?_ne_none_iff {row : List Node} {gap : Nat} :
    faultBetween? (row.take gap) (row.drop gap) ≠ none ↔
      LacksOperand row gap ∨ ∃ left right, Meet row gap left right := by
  unfold faultBetween? LacksOperand Meet
  split <;> simp_all

/-- The check stops at the first fault of the row that it reads. -/
theorem fault?_checkAlternation (back : List Node) : ∀ front : List Node,
    Error.fault? (checkAlternation (operand? front.getLast?) back) =
      Gaps.firstFault? faultBetween? front back := by
  induction back with
  | nil =>
      intro front
      rw [Gaps.firstFault?, faultBetween?]
      cases operand? front.getLast? with
      | none => rfl
      | some left => rfl
  | cons node back induction =>
      intro front
      have onward := induction (front ++ [node])
      rw [List.getLast?_concat] at onward
      rw [Gaps.firstFault?, faultBetween?, List.head?_cons, ← onward]
      by_cases isAnd : node.isConnective .and
      · have separator : operand? (some node) = none := by simp [operand?, isAnd]
        rw [separator]
        cases operand? front.getLast? with
        | none =>
            rw [checkAlternation, if_pos isAnd]
            rfl
        | some left =>
            rw [checkAlternation, if_pos isAnd]
            rfl
      · have isOperand : operand? (some node) = some node := by simp [operand?, isAnd]
        rw [isOperand]
        cases operand? front.getLast? with
        | none =>
            rw [checkAlternation, if_neg isAnd]
            rfl
        | some left =>
            rw [checkAlternation, if_neg isAnd]
            rfl

theorem fault?_checkAlternation_none (row : List Node) :
    Error.fault? (checkAlternation none row) = Gaps.firstFault? faultBetween? [] row :=
  fault?_checkAlternation row []

/-! ## Visits -/

mutual

/--
The nodes that gathering visits, from left to right and owners first. An `and` among the children of
a disjunct is left out, with all that is below it.
-/
def visited : Node → List Node
  | ⟨id, parent, kind, children⟩ =>
    ⟨id, parent, kind, children⟩ ::
      if kind = .disjunct then visitedOperands children else visitedAll children

/-- The nodes visited in the operands of a row. -/
def visitedOperands : List Node → List Node
  | [] => []
  | node :: rest =>
    if node.isConnective .and then visitedOperands rest
    else node.visited ++ visitedOperands rest

/-- The nodes visited in a row of trees. -/
def visitedAll : List Node → List Node
  | [] => []
  | node :: rest => node.visited ++ visitedAll rest

end

theorem visitedOperands_eq (row : List Node) :
    visitedOperands row = (operands row).flatMap visited := by
  induction row with
  | nil => rfl
  | cons node rest induction =>
      rw [visitedOperands, induction]
      by_cases isAnd : node.isConnective .and <;> simp [isAnd, operands]

theorem visitedAll_eq (row : List Node) : visitedAll row = row.flatMap visited := by
  induction row with
  | nil => rfl
  | cons node rest induction => rw [visitedAll, induction, List.flatMap_cons]

/-- Below a disjunct its operands are visited, below any other node all its children. -/
theorem visited_eq (node : Node) : node.visited =
    node :: (if node.kind = .disjunct then operands node.children
      else node.children).flatMap visited := by
  obtain ⟨id, parent, kind, children⟩ := node
  rw [visited, visitedOperands_eq, visitedAll_eq]
  by_cases isDisjunct : kind = .disjunct <;> simp [isDisjunct]

/-- Whether the node is a disjunct whose children do not alternate. -/
def IsMisjoined (node : Node) : Prop := node.kind = .disjunct ∧ ¬Alternates node.children

/-- The fault of a node by itself. -/
def alternationFault? (node : Node) : Option Error :=
  if node.kind = .disjunct then Error.fault? (checkAlternation none node.children) else none

theorem alternationFault?_eq_none_iff {node : Node} :
    node.alternationFault? = none ↔ ¬node.IsMisjoined := by
  rw [alternationFault?, IsMisjoined]
  by_cases isDisjunct : node.kind = .disjunct <;>
    simp [isDisjunct, Error.fault?_eq_none_iff, checkAlternation_eq_ok]

/-- The first fault in a tree is that of its top, or else it is the first one below. -/
theorem findSome?_visited (id : Nat) (parent : Option Nat) (kind : Kind) (children : List Node) :
    (visited ⟨id, parent, kind, children⟩).findSome? alternationFault? =
      if kind = .disjunct then
        (Error.fault? (checkAlternation none children)).or
          (((operands children).flatMap visited).findSome? alternationFault?)
      else (children.flatMap visited).findSome? alternationFault? := by
  rw [visited_eq, List.findSome?_cons, alternationFault?]
  by_cases isDisjunct : kind = .disjunct
  · simp only [if_pos isDisjunct]
    cases Error.fault? (checkAlternation none children) with
    | none => rfl
    | some error => rfl
  · simp only [if_neg isDisjunct]

open DataCondition.Numbering (Reports reports_pure reports_check)

theorem reports_gatherAll {row : List Node}
    (each : ∀ node ∈ row, ∀ later : Option Error,
      Reports (gatherConjunctions node) ((node.visited.findSome? alternationFault?).or later) later)
    (later : Option Error) :
    Reports (gatherAll row) (((row.flatMap visited).findSome? alternationFault?).or later)
      later := by
  induction row with
  | nil =>
      rw [gatherAll]
      exact reports_pure _ _
  | cons node rest induction =>
      rw [List.forall_mem_cons] at each
      rw [gatherAll, List.flatMap_cons, List.findSome?_append, Option.or_assoc]
      exact (each.1 _).bind fun _ => (induction each.2).bind fun _ => reports_pure _ _

/-- Gathering the conjunctions of a tree reports the first fault of the nodes that it visits. -/
theorem reports_gatherConjunctions (node : Node) (later : Option Error) :
    Reports (gatherConjunctions node) ((node.visited.findSome? alternationFault?).or later)
      later := by
  induction node using Node.induction generalizing later with
  | step id parent kind children induction =>
      rw [gatherConjunctions, findSome?_visited, gatherOperands_eq]
      by_cases isDisjunct : kind = .disjunct
      · have below :=
          reports_gatherAll (fun child member => induction child (mem_of_mem_operands member)) later
        rw [if_pos isDisjunct, if_pos isDisjunct, Option.or_assoc]
        refine (reports_check _ _).bind fun _ => ?_
        by_cases joined : children.any (isConnective .and)
        · rw [if_pos joined]
          exact Reports.fresh fun _ => below.bind fun _ => reports_pure _ _
        · rw [if_neg joined]
          exact below.bind fun _ => reports_pure _ _
      · rw [if_neg isDisjunct, if_neg isDisjunct]
        exact (reports_gatherAll induction later).bind fun _ => reports_pure _ _

/-! ## Numbers -/

/-- Whether the node is a disjunct with two operands or more. -/
def IsJoined (node : Node) : Prop :=
  node.kind = .disjunct ∧ 2 ≤ (operands node.children).length

instance (node : Node) : Decidable node.IsJoined := inferInstanceAs (Decidable (_ ∧ _))

theorem Alternates.length_operands_pos {row : List Node} (alternates : Alternates row) :
    0 < (operands row).length := by
  cases alternates with
  | alone isOperand => simp [operands, isOperand]
  | joined isOperand isAnd later => simp [operands, isOperand]

/-- Where operands alternate with `and`, there are several if and only if there is an `and`. -/
theorem Alternates.any_and_iff {row : List Node} (alternates : Alternates row) :
    row.any (isConnective .and) ↔ 2 ≤ (operands row).length := by
  cases alternates with
  | alone isOperand => simp [operands, isOperand]
  | @joined operand separator rest isOperand isAnd later =>
      have several : operands (operand :: separator :: rest) = operand :: operands rest := by
        simp [operands, isOperand, isAnd]
      have others := later.length_operands_pos
      simp only [List.any_cons, isAnd, Bool.true_or, Bool.or_true, true_iff, several,
        List.length_cons]
      omega

theorem countP_visited (node : Node) : node.visited.countP (IsJoined ·) =
    (if node.IsJoined then 1 else 0) +
      ((if node.kind = .disjunct then operands node.children
        else node.children).flatMap visited).countP (IsJoined ·) := by
  rw [visited_eq, List.countP_cons, Nat.add_comm]
  simp only [decide_eq_true_eq]

theorem after_of_gatherAll {row gathered : List Node} {next after : UInt32}
    (each : ∀ node ∈ row, ∀ {start stop : UInt32} {result : Node},
      gatherConjunctions node start = .ok (result, stop) →
      stop = start + node.visited.countP (IsJoined ·))
    (run : gatherAll row next = .ok (gathered, after)) :
    after = next + (row.flatMap visited).countP (IsJoined ·) := by
  induction row generalizing next gathered with
  | nil =>
      obtain ⟨-, rfl⟩ := by simpa using run
      exact (Numbering.add_zero next).symm
  | cons node rest induction =>
      obtain ⟨first, others, middle, first_run, others_run, -⟩ := gatherAll_cons_eq_ok.mp run
      rw [List.forall_mem_cons] at each
      rw [List.flatMap_cons, List.countP_append, induction each.2 others_run, each.1 first_run,
        Numbering.add_add]

/-- One number is drawn for each disjunct with several operands that is visited. -/
theorem after_of_gatherConjunctions (node : Node) {next after : UInt32} {gathered : Node}
    (run : gatherConjunctions node next = .ok (gathered, after)) :
    after = next + node.visited.countP (IsJoined ·) := by
  induction node using Node.induction generalizing next after gathered with
  | step id parent kind children induction =>
      have operands_drawn {start stop : UInt32} {results : List Node}
          (inside : gatherOperands children start = .ok (results, stop)) :
          stop = start + ((operands children).flatMap visited).countP (IsJoined ·) := by
        rw [gatherOperands_eq] at inside
        exact after_of_gatherAll (fun child member => induction child (mem_of_mem_operands member))
          inside
      rw [countP_visited]
      rcases gatherConjunctions_eq_ok.mp run with
        ⟨isDisjunct, checked, joined, results, inside, -⟩ |
        ⟨isDisjunct, checked, apart, results, inside, -⟩ | ⟨other, results, inside, -⟩
      · have several := (alternates_of_checkAlternation checked).any_and_iff.mp joined
        rw [if_pos ⟨isDisjunct, several⟩, if_pos isDisjunct, operands_drawn inside,
          Numbering.add_one_add]
      · have single := mt (alternates_of_checkAlternation checked).any_and_iff.mpr apart
        rw [if_neg fun here => single here.2, if_pos isDisjunct, operands_drawn inside,
          Nat.zero_add]
      · rw [if_neg fun here => other here.1, if_neg other, after_of_gatherAll induction inside,
          Nat.zero_add]

/-! ## The outcome -/

/-- The fault of a disjunct that does not alternate is that of its first faulty gap. -/
theorem IsMisjoined.exists_fault {node : Node} (misjoined : node.IsMisjoined) :
    ∃ gap fault, IsLeast {gap | LacksOperand node.children gap ∨
        ∃ left right, Meet node.children gap left right} gap ∧
      node.alternationFault? = some fault ∧
      faultBetween? (node.children.take gap) (node.children.drop gap) = some fault := by
  cases found : node.alternationFault? with
  | none => exact absurd misjoined (alternationFault?_eq_none_iff.mp found)
  | some fault =>
      rw [alternationFault?, if_pos misjoined.1, fault?_checkAlternation_none] at found
      obtain ⟨gap, least, shown⟩ :=
        Gaps.exists_isLeast_of_firstFault? (fun _ => faultBetween?_ne_none_iff) found
      exact ⟨gap, fault, least, rfl, shown⟩

/--
Conjunctions are gathered exactly if the children of every disjunct that is visited alternate.
Otherwise the first disjunct for which they do not gives the error at its first faulty gap. The
counter goes on, in 32 bits, by one for each disjunct with several operands.
-/
theorem gatherConjunctions_outcome (node : Node) (next : UInt32) :
    ((∃ result, (gatherConjunctions node).run next = .ok result) ↔
      ∀ part ∈ node.visited, part.kind = .disjunct → Alternates part.children) ∧
    (∀ front part back, node.visited = front ++ part :: back → part.IsMisjoined →
      (∀ earlier ∈ front, ¬earlier.IsMisjoined) →
      ∃ gap, IsLeast {gap | LacksOperand part.children gap ∨
          ∃ left right, Meet part.children gap left right} gap ∧
        (LacksOperand part.children gap →
          (gatherConjunctions node).run next = .error (.missingOperand .and)) ∧
        ∀ left right, Meet part.children gap left right →
          (gatherConjunctions node).run next =
            .error (.missingConnective left.label right.label)) ∧
    ∀ result after, (gatherConjunctions node).run next = .ok (result, after) →
      after = next + .ofNat (node.visited.countP (IsJoined ·)) := by
  have reports : Reports (gatherConjunctions node) (node.visited.findSome? alternationFault?)
      none := by
    simpa using reports_gatherConjunctions node none
  refine ⟨?_, fun front part back split misjoined first => ?_, fun result after run => ?_⟩
  · refine (reports.succeeds_iff next).trans ?_
    simp only [List.findSome?_eq_none_iff, alternationFault?_eq_none_iff, IsMisjoined, not_and,
      not_not]
  · obtain ⟨gap, fault, least, fails, shown⟩ := misjoined.exists_fault
    have found : node.visited.findSome? alternationFault? = some fault :=
      List.findSome?_eq_some_iff.mpr ⟨front, part, back, split, fails,
        fun earlier inside => alternationFault?_eq_none_iff.mpr (first earlier inside)⟩
    rw [found] at reports
    have run : (gatherConjunctions node).run next = .error fault := reports.eq_error next
    refine ⟨gap, least, fun lacking => ?_, fun left right meet => ?_⟩
    · rw [faultBetween?, lacking.1, lacking.2] at shown
      rw [run, ← Option.some.inj shown]
    · rw [faultBetween?, meet.1, meet.2] at shown
      rw [run, ← Option.some.inj shown]
  · exact after_of_gatherConjunctions node run

/-- An `and` with no operand behind it in a group of the first disjunct comes before the second. -/
theorem gatherConjunctions_outcome_nested :
    let inner : Node :=
      ⟨5, some 3, .disjunct, [⟨6, some 5, .atom ['a'], []⟩, ⟨7, some 5, .connective .and, []⟩]⟩
    let first : Node := ⟨1, some 0, .disjunct, [⟨3, some 1, .group, [inner]⟩]⟩
    let second : Node :=
      ⟨2, some 0, .disjunct, [⟨8, some 2, .atom ['b'], []⟩, ⟨9, some 2, .atom ['c'], []⟩]⟩
    let tree : Node := ⟨0, none, .root, [first, second]⟩
    second.IsMisjoined ∧ (gatherConjunctions tree).run 10 = .error (.missingOperand .and) := by
  intro inner first second tree
  have misjoined : inner.IsMisjoined := ⟨rfl, fun alternates => nomatch alternates.checked⟩
  have lacking : LacksOperand inner.children 2 := ⟨rfl, rfl⟩
  have least : IsLeast {gap | LacksOperand inner.children gap ∨
      ∃ left right, Meet inner.children gap left right} 2 := by
    refine ⟨.inl lacking, fun gap shown => Nat.le_of_not_lt fun earlier => ?_⟩
    refine faultBetween?_ne_none_iff.mpr shown ?_
    obtain rfl | rfl : gap = 0 ∨ gap = 1 := by omega
    · rfl
    · rfl
  have before : ∀ earlier ∈ [tree, first, ⟨3, some 1, .group, [inner]⟩],
      ¬earlier.IsMisjoined := by
    rintro earlier inside ⟨isDisjunct, broken⟩
    simp only [List.mem_cons, List.not_mem_nil, or_false] at inside
    rcases inside with rfl | rfl | rfl
    · cases isDisjunct
    · exact broken (.alone rfl)
    · cases isDisjunct
  obtain ⟨gap, found, fails, -⟩ := (gatherConjunctions_outcome tree 10).2.1 _ inner
    [⟨6, some 5, .atom ['a'], []⟩, second, ⟨8, some 2, .atom ['b'], []⟩,
      ⟨9, some 2, .atom ['c'], []⟩] rfl misjoined before
  obtain rfl := found.unique least
  exact ⟨⟨rfl, fun alternates => nomatch alternates.checked⟩, fails lacking⟩

/-- The largest number is given out as well, and behind it the counter stands at zero. -/
example :
    let operands : List Node := [⟨2, some 1, .atom ['a'], []⟩, ⟨3, some 1, .atom ['b'], []⟩]
    let separator : Node := ⟨4, some 1, .connective .and, []⟩
    let joined : Node := ⟨1, none, .disjunct, operands.intersperse separator⟩
    (gatherConjunctions joined).run 4294967295 = .ok (⟨1, none, .disjunct,
      [⟨4294967295, some 1, .conjunction, operands.map (under 4294967295)⟩]⟩, 0) := rfl

end Node

end DataCondition
