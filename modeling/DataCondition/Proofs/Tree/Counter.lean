import DataCondition.Proofs.Error
import DataCondition.Tree.Numbering

/-!
# Runs of the counter

A computation that draws numbers is run on the next number. These equations take a run apart.
-/

namespace DataCondition

namespace Numbering

variable {α β : Type}

@[simp]
theorem pure_apply (value : α) (next : UInt32) :
    (pure value : Numbering α) next = .ok (value, next) := rfl

@[simp]
theorem throw_apply (error : Error) (next : UInt32) :
    (throw error : Numbering α) next = .error error := rfl

/-- A run of two steps succeeds if both do, the second one from where the first one stopped. -/
theorem bind_eq_ok {first : Numbering α} {later : α → Numbering β} {next : UInt32}
    {result : β × UInt32} :
    (first >>= later) next = .ok result ↔
      ∃ value middle, first next = .ok (value, middle) ∧ later value middle = .ok result := by
  change (first next >>= fun drawn => later drawn.1 drawn.2) = .ok result ↔ _
  rw [Error.bind_eq_ok, Prod.exists]

theorem bind_of_ok {first : Numbering α} {later : α → Numbering β} {next middle : UInt32}
    {value : α}
    (run : first next = .ok (value, middle)) : (first >>= later) next = later value middle := by
  change (first next).bind (fun drawn => later drawn.1 drawn.2) = _
  rw [run]
  rfl

theorem bind_of_error {first : Numbering α} {later : α → Numbering β} {next : UInt32}
    {error : Error} (run : first next = .error error) : (first >>= later) next = .error error := by
  change (first next).bind (fun drawn => later drawn.1 drawn.2) = _
  rw [run]
  rfl

@[simp]
theorem fresh_bind (later : Nat → Numbering β) (next : UInt32) :
    (fresh >>= later) next = later next (next + 1) := rfl

theorem add_zero (next : UInt32) : next + (0 : Nat) = next := UInt32.add_zero next

/-- Steps that the counter makes one after the other add up. -/
theorem add_add (next : UInt32) (first second : Nat) :
    next + first + second = next + (first + second : Nat) := by
  rw [UInt32.ofNat_add, UInt32.add_assoc]

theorem add_one_add (next : UInt32) (count : Nat) : next + 1 + count = next + (1 + count : Nat) :=
  add_add next 1 count

/-- Within 32 bits the number after some steps is larger by as many. -/
theorem toNat_add {next : UInt32} {steps : Nat} (fits : next.toNat + steps < UInt32.size) :
    (next + steps : UInt32).toNat = next.toNat + steps := by
  have small : steps < UInt32.size := Nat.lt_of_le_of_lt (Nat.le_add_left _ _) fits
  rw [UInt32.toNat_add, UInt32.toNat_ofNat_of_lt' small]
  exact Nat.mod_eq_of_lt fits

/-- A check draws no number. -/
theorem lift_eq_ok {check : Except Error α} {next : UInt32} {result : α × UInt32} :
    (liftM check : Numbering α) next = .ok result ↔ check = .ok result.1 ∧ result.2 = next := by
  obtain ⟨value, after⟩ := result
  cases check with
  | error error =>
      constructor
      · intro run
        cases run
      · rintro ⟨run, -⟩
        cases run
  | ok checked =>
      constructor
      · intro run
        cases run
        exact ⟨rfl, rfl⟩
      · rintro ⟨run, rfl⟩
        cases run
        rfl

/--
A computation fails with the first fault that there is, unless that comes later. Its outcome does
not hang on the counter.
-/
def Reports (run : Numbering α) (fault later : Option Error) : Prop :=
  ∀ next, match run next with
    | .ok _ => fault = later
    | .error error => fault = some error

theorem reports_pure (value : α) (fault : Option Error) : Reports (pure value) fault fault :=
  fun _ => rfl

theorem reports_throw (error : Error) (later : Option Error) :
    Reports (throw error : Numbering α) (some error) later := fun _ => rfl

theorem Reports.bind {run : Numbering α} {continued : α → Numbering β}
    {fault middle later : Option Error} (first : Reports run fault middle)
    (second : ∀ value, Reports (continued value) middle later) :
    Reports (run >>= continued) fault later := by
  intro next
  have outcome := first next
  cases ran : run next with
  | error error =>
      rw [ran] at outcome
      rw [bind_of_error ran]
      exact outcome
  | ok drawn =>
      obtain ⟨value, after⟩ := drawn
      rw [ran] at outcome
      rw [bind_of_ok ran, show fault = middle from outcome]
      exact second value after

theorem Reports.fresh {continued : Nat → Numbering β} {fault later : Option Error}
    (second : ∀ id, Reports (continued id) fault later) :
    Reports (Numbering.fresh >>= continued) fault later :=
  fun next => second next (next + 1)

theorem reports_check (check : Except Error Unit) (later : Option Error) :
    Reports (liftM check) ((Error.fault? check).or later) later := by
  intro next
  cases check with
  | error error => rfl
  | ok done => rfl

/-- What reports all faults succeeds exactly if there is none. -/
theorem Reports.succeeds_iff {run : Numbering α} {fault : Option Error}
    (reports : Reports run fault none) (next : UInt32) :
    (∃ result, run next = .ok result) ↔ fault = none := by
  have outcome := reports next
  cases ran : run next with
  | error error =>
      rw [ran] at outcome
      simp [show fault = some error from outcome]
  | ok result =>
      rw [ran] at outcome
      simp [show fault = none from outcome]

theorem Reports.eq_error {run : Numbering α} {error : Error}
    (reports : Reports run (some error) none) (next : UInt32) : run next = .error error := by
  have outcome := reports next
  cases ran : run next with
  | error found =>
      rw [ran] at outcome
      exact congrArg _ (Option.some.inj outcome).symm
  | ok result =>
      rw [ran] at outcome
      cases outcome

/-! ## Numbers -/

/-- Numbers are those that the counter gave out on its way from `next` to `after`, in order. -/
inductive Drawn : (next after : UInt32) → (numbers : List Nat) → Prop
  | nil (next : UInt32) : Drawn next next []
  | cons {next after : UInt32} {rest : List Nat} :
      Drawn (next + 1) after rest → Drawn next after (next :: rest)

theorem Drawn.append {next middle after : UInt32} {left right : List Nat}
    (first : Drawn next middle left) (second : Drawn middle after right) :
    Drawn next after (left ++ right) := by
  induction first with
  | nil next => exact second
  | cons _ induction => exact .cons (induction second)

/-- The counter makes one step for each number. -/
theorem Drawn.after_eq {next after : UInt32} {numbers : List Nat}
    (drawn : Drawn next after numbers) : after = next + numbers.length := by
  induction drawn with
  | nil next => exact (add_zero next).symm
  | cons _ induction => rw [induction, add_one_add, Nat.add_comm, List.length_cons]

/-- The numbers follow each other in 32 bits. -/
theorem Drawn.getElem?_eq {next after : UInt32} {numbers : List Nat}
    (drawn : Drawn next after numbers) {place : Nat} (within : place < numbers.length) :
    numbers[place]? = some ↑(next + place : UInt32) := by
  induction drawn generalizing place with
  | nil next => cases within
  | cons _ induction =>
      cases place with
      | zero => simp
      | succ place =>
          rw [List.getElem?_cons_succ, induction (Nat.lt_of_succ_lt_succ within), add_one_add,
            Nat.add_comm]

/-- As long as they fit in 32 bits, the numbers follow each other. -/
theorem Drawn.eq_range' {next after : UInt32} {numbers : List Nat}
    (drawn : Drawn next after numbers) (fits : next.toNat + numbers.length ≤ UInt32.size) :
    numbers = List.range' next numbers.length := by
  refine List.ext_getElem List.length_range'.symm fun place within _ => ?_
  have number := drawn.getElem?_eq within
  rw [List.getElem?_eq_getElem within, Option.some_inj, toNat_add (by omega)] at number
  rw [number, List.getElem_range', Nat.one_mul]

end Numbering

end DataCondition
