import Mathlib.Data.List.Forall2
import DataCondition.Error

/-!
# Computations that may fail
-/

namespace DataCondition

namespace Error

variable {α β : Type}

/-- Two steps succeed if both do, the second one with the value of the first. -/
theorem bind_eq_ok {first : Except Error α} {later : α → Except Error β} {result : β} :
    (first >>= later) = .ok result ↔ ∃ value, first = .ok value ∧ later value = .ok result := by
  cases first with
  | error error => simp [bind, Except.bind]
  | ok value => simp [bind, Except.bind]

/-- A row of steps gives the results of its steps, in order. -/
theorem mapM_eq_ok {step : α → Except Error β} {items : List α} {results : List β} :
    items.mapM step = .ok results ↔
      List.Forall₂ (fun item result => step item = .ok result) items results := by
  induction items generalizing results with
  | nil =>
      rw [List.forall₂_nil_left_iff]
      exact ⟨fun done => (Except.ok.inj done).symm, fun none => none ▸ rfl⟩
  | cons item items induction =>
      rw [List.forall₂_cons_left_iff, List.mapM_cons]
      constructor
      · intro done
        obtain ⟨result, first, rest⟩ := bind_eq_ok.mp done
        obtain ⟨others, later, last⟩ := bind_eq_ok.mp rest
        exact ⟨result, others, first, induction.mp later, (Except.ok.inj last).symm⟩
      · rintro ⟨result, others, first, later, rfl⟩
        exact bind_eq_ok.mpr ⟨result, first, bind_eq_ok.mpr ⟨others, induction.mpr later, rfl⟩⟩

theorem exists_of_mapM_eq_ok {step : α → Except Error β} {items : List α} {results : List β}
    (done : items.mapM step = .ok results) : ∀ item ∈ items, ∃ result, step item = .ok result := by
  have each : List.Forall₂ (fun item _ => (∃ result, step item = .ok result) ∧ True)
      items results :=
    (mapM_eq_ok.mp done).imp fun _ result done => ⟨⟨result, done⟩, trivial⟩
  exact ((List.forall₂_and_left items results).mp each).1

theorem eq_ok_of_toOption {run : Except Error α} {value : α} (found : run.toOption = some value) :
    run = .ok value := by
  cases run with
  | error error => cases found
  | ok value => exact congrArg Except.ok (Option.some.inj found)

/-- The error of a computation that fails. -/
def fault? : Except Error α → Option Error
  | .ok _ => none
  | .error error => some error

theorem fault?_eq_none_iff {run : Except Error Unit} : fault? run = none ↔ run = .ok () := by
  cases run with
  | error error => simp [fault?]
  | ok done => simp [fault?]

end Error

end DataCondition
