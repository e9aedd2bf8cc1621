import Mathlib.Order.Bounds.Basic

/-!
# Faults between neighbours

A row has gaps before, between and behind its items. A fault may show at each of them, and the first
fault is that of the first gap that has one.
-/

namespace DataCondition

namespace Gaps

variable {Item Fault : Type} {fault? : List Item → List Item → Option Fault}

/-- The first fault at the end of `front` or later, by what is before and behind each gap. -/
def firstFault? (fault? : List Item → List Item → Option Fault) (front : List Item) :
    List Item → Option Fault
  | [] => fault? front []
  | item :: back => (fault? front (item :: back)).or (firstFault? fault? (front ++ [item]) back)

theorem fault?_of_firstFault?_eq_none {front back : List Item}
    (faultless : firstFault? fault? front back = none) {middle later : List Item}
    (split : back = middle ++ later) : fault? (front ++ middle) later = none := by
  induction back generalizing front middle with
  | nil =>
      obtain ⟨rfl, rfl⟩ := List.append_eq_nil_iff.mp split.symm
      simpa [firstFault?] using faultless
  | cons item back induction =>
      obtain ⟨here, behind⟩ := Option.or_eq_none_iff.mp faultless
      rcases List.cons_eq_append_iff.mp split with ⟨rfl, rfl⟩ | ⟨rest, rfl, same⟩
      · simpa using here
      · simpa using induction behind same

theorem exists_of_firstFault?_eq_some {front back : List Item} {fault : Fault}
    (found : firstFault? fault? front back = some fault) :
    ∃ middle later, back = middle ++ later ∧ fault? (front ++ middle) later = some fault ∧
      ∀ middle' later', back = middle' ++ later' → middle'.length < middle.length →
        fault? (front ++ middle') later' = none := by
  induction back generalizing front with
  | nil => exact ⟨[], [], rfl, by simpa [firstFault?] using found, by simp⟩
  | cons item back induction =>
      rcases Option.or_eq_some_iff.mp found with here | ⟨here, behind⟩
      · exact ⟨[], item :: back, rfl, by simpa using here, by simp⟩
      · obtain ⟨middle, later, rfl, shown, first⟩ := induction behind
        refine ⟨item :: middle, later, rfl, by simpa using shown, ?_⟩
        intro middle' later' split shorter
        rcases List.cons_eq_append_iff.mp split with ⟨rfl, rfl⟩ | ⟨rest, rfl, same⟩
        · simpa using here
        · simpa using first rest later' same (by simpa using shorter)

section Row

variable {row : List Item} {shows : Nat → Prop}
  (faulty : ∀ gap, fault? (row.take gap) (row.drop gap) ≠ none ↔ shows gap)

include faulty

/-- The first fault is that of the first gap that has one. -/
theorem exists_isLeast_of_firstFault? {fault : Fault}
    (found : firstFault? fault? [] row = some fault) :
    ∃ gap, IsLeast {gap | shows gap} gap ∧ fault? (row.take gap) (row.drop gap) = some fault := by
  obtain ⟨front, back, rfl, here, first⟩ := exists_of_firstFault?_eq_some found
  have shown : fault? ((front ++ back).take front.length) ((front ++ back).drop front.length) =
      some fault := by
    simpa using here
  refine ⟨front.length, ⟨(faulty _).mp (ne_of_eq_of_ne shown nofun), ?_⟩, shown⟩
  intro gap other
  refine Nat.le_of_not_lt fun earlier => (faulty gap).mpr other ?_
  exact first _ _ (List.take_append_drop gap _).symm (by simp; omega)

/-- A row is faultless if there is no fault at any of its gaps. -/
theorem firstFault?_eq_none_iff : firstFault? fault? [] row = none ↔ ∀ gap, ¬shows gap := by
  constructor
  · intro faultless gap shown
    refine (faulty gap).mpr shown ?_
    exact fault?_of_firstFault?_eq_none faultless (row.take_append_drop gap).symm
  · intro sound
    refine Option.eq_none_iff_forall_ne_some.mpr fun fault found => ?_
    obtain ⟨gap, least, -⟩ := exists_isLeast_of_firstFault? faulty found
    exact sound gap least.1

theorem firstFault?_of_isLeast {gap : Nat} (least : IsLeast {gap | shows gap} gap) :
    firstFault? fault? [] row = fault? (row.take gap) (row.drop gap) := by
  cases found : firstFault? fault? [] row with
  | none => exact absurd least.1 ((firstFault?_eq_none_iff faulty).mp found gap)
  | some fault =>
      obtain ⟨other, first, here⟩ := exists_isLeast_of_firstFault? faulty found
      obtain rfl := least.unique first
      exact here.symm

end Row

end Gaps

end DataCondition
