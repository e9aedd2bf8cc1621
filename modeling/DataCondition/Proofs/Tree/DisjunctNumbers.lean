import DataCondition.Proofs.Tree.Disjunction
import DataCondition.Proofs.Tree.Nesting
import DataCondition.Proofs.Tree.Numbers

/-!
# Numbers while disjuncts are gathered

Disjuncts are numbered in the order in which they stand in the result, owners first, although groups
are dropped, spliced and moved meanwhile. Tests and the groups that stay keep their numbers.
-/

namespace DataCondition

namespace Node

open DataCondition.Numbering (Drawn)

mutual

/-- The sources of a member of a disjunct, in the tree of parentheses. -/
def keptSources : Node → List (Nat × Token)
  | ⟨id, _, .atom text, _⟩ => [(id, .atom text)]
  | ⟨id, _, .group, children⟩ => (id, .opening) :: keptSourcesAll true children
  | _ => []

/--
The sources of a row in the tree of parentheses that stay when its disjuncts are gathered: a group
that is a whole run is not among them. `starts` tells whether a run starts here.
-/
def keptSourcesAll (starts : Bool) : List Node → List (Nat × Token)
  | [] => []
  | ⟨id, parent, kind, children⟩ :: rest =>
    (if starts ∧ kind = .group ∧ endsRun rest then keptSourcesAll true children
      else keptSources ⟨id, parent, kind, children⟩) ++ keptSourcesAll (kind = .connective .or) rest

end

theorem keptSourcesAll_cons (starts : Bool) (node : Node) (rest : List Node) :
    keptSourcesAll starts (node :: rest) =
      (if starts ∧ node.kind = .group ∧ endsRun rest then keptSourcesAll true node.children
        else keptSources node) ++ keptSourcesAll (node.isConnective .or) rest := by
  obtain ⟨id, parent, kind, children⟩ := node
  rw [keptSourcesAll]
  rfl

theorem keptSources_of_connective {node : Node} {link : Connective}
    (isLink : node.kind = .connective link) : keptSources node = [] := by
  obtain ⟨id, parent, kind, children⟩ := node
  obtain rfl : kind = .connective link := isLink
  rw [keptSources]
  all_goals simp

/-- Where a row ends a run, it does not matter whether one starts there. -/
theorem keptSourcesAll_of_endsRun {rest : List Node} (ends : endsRun rest) (starts : Bool) :
    keptSourcesAll starts rest = keptSourcesAll false rest := by
  cases rest with
  | nil => simp [keptSourcesAll]
  | cons node rest =>
      have separator : node.kind = .connective .or := by
        simpa [endsRun, isConnective] using ends
      simp [keptSourcesAll_cons, separator]

/-- The trees that come from gathering disjuncts while the counter goes from `next` to `after`. -/
structure Disjoined (owner : Nat) (next after : UInt32) (kept : List (Nat × Token))
    (row : List Node) : Prop where
  numbers : Drawn next after (numbersOf .disjunct row)
  sources : sources row = kept
  owned : AreOwned owner row
  isOpen : ∀ node ∈ row.flatMap nodes, node.IsOpen

namespace Disjoined

variable {owner : Nat} {next middle after : UInt32} {kept kept' : List (Nat × Token)}

theorem nil (owner : Nat) (next : UInt32) : Disjoined owner next next [] [] where
  numbers := .nil next
  sources := rfl
  owned := areOwned_nil owner
  isOpen := by simp

theorem append {left right : List Node} (first : Disjoined owner next middle kept left)
    (second : Disjoined owner middle after kept' right) :
    Disjoined owner next after (kept ++ kept') (left ++ right) where
  numbers := by
    rw [numbersOf_append]
    exact first.numbers.append second.numbers
  sources := by
    rw [sources_append, first.sources, second.sources]
  owned := areOwned_append.mpr ⟨first.owned, second.owned⟩
  isOpen := by
    rw [List.flatMap_append, List.forall_mem_append]
    exact ⟨first.isOpen, second.isOpen⟩

/-- The members become a disjunct, whose number was drawn before them. -/
theorem disjunct {members : List Node} (inside : Disjoined next (next + 1) after kept members) :
    Disjoined owner next after kept [⟨next, some owner, .disjunct, members⟩] where
  numbers := by
    have drawn := Drawn.cons inside.numbers
    simpa [numberOf?] using drawn
  sources := by
    have same := inside.sources
    simpa [source?] using same
  owned := areOwned_cons.mpr ⟨rfl, inside.owned, areOwned_nil owner⟩
  isOpen := by
    rw [open_cons]
    exact ⟨by simp [IsOpen], inside.isOpen, by simp⟩

/-- A group stays as the owner of the disjuncts inside it. -/
theorem group {id : Nat} {gathered : List Node} (inside : Disjoined id next after kept gathered) :
    Disjoined owner next after ((id, .opening) :: kept) [⟨id, some owner, .group, gathered⟩] where
  numbers := by
    have drawn := inside.numbers
    simpa [numberOf?] using drawn
  sources := by
    have same := inside.sources
    simpa [source?] using same
  owned := areOwned_cons.mpr ⟨rfl, inside.owned, areOwned_nil owner⟩
  isOpen := by
    rw [open_cons]
    exact ⟨by simp [IsOpen], inside.isOpen, by simp⟩

/-- A test or a connective only moves. -/
theorem moved {node : Node} (nested : node.isNested) (other : node.kind ≠ .group) :
    Disjoined owner next next (keptSources node) [node.under owner] := by
  obtain ⟨id, parent, kind, children⟩ := node
  cases kind with
  | atom | connective =>
      obtain rfl : children = [] := by simpa [isNested] using nested
      exact ⟨.nil next, by simp [source?, under, keptSources],
        areOwned_cons.mpr ⟨rfl, areOwned_nil id, areOwned_nil owner⟩,
        by simp [nodes_eq, under, IsOpen]⟩
  | group => exact absurd rfl other
  | root | disjunct | conjunction => simp [isNested] at nested

end Disjoined

mutual

/-- Gathering the disjuncts of a row numbers them in order and keeps the sources that stay. -/
theorem disjoined_of_disjuncts : ∀ (row : List Node) {owner : Nat} {next after : UInt32}
    {gathered : List Node}, allNested row → disjuncts owner row next = .ok (gathered, after) →
    Disjoined owner next after (keptSourcesAll true row) gathered
  | [], _, _, _, _, _, run => by simp [disjuncts] at run
  | ⟨id, parent, kind, children⟩ :: rest, owner, next, after, gathered, nested, run => by
      obtain ⟨node_nested, rest_nested⟩ :
          (Node.mk id parent kind children).isNested ∧ allNested rest := by
        simpa [allNested] using nested
      rw [keptSourcesAll_cons]
      rcases disjuncts_cons_eq_ok.mp run with
        ⟨rfl, ends, -, spliced, later, middle, inner_run, later_run, rfl⟩ |
        ⟨operand, alone, first, others, later, middle, member_run, members_run, rfl⟩
      · have children_nested : allNested children := by simpa [isNested] using node_nested
        have front := disjoined_of_disjuncts children children_nested inner_run
        have back := disjoined_of_later rest ends rest_nested later_run
        rw [if_pos ⟨rfl, rfl, ends⟩, keptSourcesAll_of_endsRun ends]
        exact front.append back
      · have front := disjoined_of_member ⟨id, parent, kind, children⟩ node_nested member_run
        obtain ⟨stop, kept, kept', inside, back, same⟩ :=
          disjoined_of_members rest rest_nested members_run
        have within : (Node.mk id parent kind children).isConnective .or = false := by
          simpa [isConnective] using operand
        rw [if_neg (by simpa using alone), within, same, ← List.append_assoc]
        exact (front.append inside).disjunct.append back
termination_by structural row => row

theorem disjoined_of_later : ∀ (rest : List Node) {owner : Nat} {next after : UInt32}
    {gathered : List Node},
    endsRun rest → allNested rest → laterDisjuncts owner rest next = .ok (gathered, after) →
    Disjoined owner next after (keptSourcesAll false rest) gathered
  | [], owner, next, _, _, _, _, run => by
      obtain ⟨rfl, rfl⟩ := by simpa using run
      simpa [keptSourcesAll] using Disjoined.nil owner next
  | separator :: rest, _, _, _, _, ends, nested, run => by
      have isOr : separator.kind = .connective .or := by simpa [endsRun, isConnective] using ends
      obtain ⟨-, rest_nested⟩ : separator.isNested ∧ allNested rest := by
        simpa [allNested] using nested
      rw [laterDisjuncts_cons] at run
      have back := disjoined_of_disjuncts rest rest_nested run
      simpa [keptSourcesAll_cons, keptSources_of_connective isOr, isConnective, isOr] using back
termination_by structural rest => rest

theorem disjoined_of_members : ∀ (rest : List Node) {disjunct owner : Nat} {next after : UInt32}
    {others later : List Node}, allNested rest →
    members disjunct owner rest next = .ok ((others, later), after) →
    ∃ middle kept kept', Disjoined disjunct next middle kept others ∧
      Disjoined owner middle after kept' later ∧ keptSourcesAll false rest = kept ++ kept'
  | [], disjunct, owner, next, _, _, _, _, run => by
      obtain ⟨rfl, rfl, rfl⟩ := members_nil_eq_ok.mp run
      exact ⟨_, [], [], .nil disjunct _, .nil owner _, by simp [keptSourcesAll]⟩
  | node :: rest, disjunct, owner, next, after, others, later, nested, run => by
      obtain ⟨node_nested, rest_nested⟩ : node.isNested ∧ allNested rest := by
        simpa [allNested] using nested
      rw [keptSourcesAll_cons, if_neg (by simp)]
      cases ends : node.isConnective .or with
      | true =>
          obtain ⟨rfl, later_run⟩ := (members_separator_eq_ok ends).mp run
          have back := disjoined_of_disjuncts rest rest_nested later_run
          have isOr : node.kind = .connective .or := by simpa [isConnective] using ends
          exact ⟨next, [], _, .nil disjunct next, back, by
            rw [keptSources_of_connective isOr]⟩
      | false =>
          obtain ⟨moved, members, middle, moved_run, members_run, rfl⟩ :=
            (members_cons_eq_ok ends).mp run
          have front := disjoined_of_member node node_nested moved_run
          obtain ⟨stop, kept, kept', inside, back, same⟩ :=
            disjoined_of_members rest rest_nested members_run
          exact ⟨stop, _, kept', front.append inside, back, by
            rw [same, List.append_assoc]⟩
termination_by structural rest => rest

theorem disjoined_of_member : ∀ (node : Node) {disjunct : Nat} {next after : UInt32} {moved : Node},
    node.isNested → member disjunct node next = .ok (moved, after) →
    Disjoined disjunct next after (keptSources node) [moved]
  | ⟨id, parent, kind, children⟩, disjunct, next, after, moved, nested, run => by
      rcases member_eq_ok.mp run with ⟨isGroup, -, gathered, inner_run, rfl⟩ | ⟨other, rfl, rfl⟩
      · obtain rfl : kind = .group := isGroup
        have children_nested : allNested children := by simpa [isNested] using nested
        rw [keptSources]
        exact (disjoined_of_disjuncts children children_nested inner_run).group
      · exact .moved nested other
termination_by structural node => node

end

end Node

end DataCondition
