import Mathlib.Data.List.TakeWhile
import DataCondition.Condition
import DataCondition.Constraint.Window
import DataCondition.Proofs.Error

/-!
# Checks in a row

The conditions and the time windows of constraints are parsed one after the other. Each is a check,
and the first one that fails decides the error of the whole row.
-/

namespace DataCondition

/-- A text that is parsed for its own sake. -/
inductive Check where
  | condition (text : Text)
  | window (text : Text)
deriving DecidableEq

namespace Check

/-- Whether the text parses, and with which error it does not. -/
def outcome : Check → Except Error Unit
  | .condition text => (Condition.tree text).map fun _ => ()
  | .window text => (Window.ofText text).map fun _ => ()

/-- Whether the text parses. -/
def passes (check : Check) : Bool := check.outcome.isOk

/-- The condition that is checked. -/
def condition? : Check → Option Text
  | .condition text => some text
  | .window _ => none

/-- The outcome of checks that are made in order, up to the first that fails. -/
def outcomeAll (checks : List Check) : Except Error Unit := checks.forM outcome

/-- The conditions among the checks that come before the first that fails. -/
def lookedUp (checks : List Check) : List Text :=
  (checks.takeWhile passes).filterMap condition?

theorem passes_iff {check : Check} : check.passes ↔ check.outcome = .ok () := by
  unfold passes
  cases check.outcome with
  | error error => simp [Except.isOk, Except.toBool]
  | ok value => simp [Except.isOk, Except.toBool]

theorem not_passes_of_error {check : Check} {error : Error}
    (failed : check.outcome = .error error) : ¬check.passes := by
  rw [passes_iff, failed]
  nofun

theorem passes_condition_iff {text : Text} :
    (condition text).passes ↔ ∃ tree, Condition.tree text = .ok tree := by
  rw [passes_iff, outcome]
  cases Condition.tree text with
  | error error => simp [Except.map]
  | ok tree => simp [Except.map]

theorem outcomeAll_append (left right : List Check) :
    outcomeAll (left ++ right) = outcomeAll left >>= fun _ => outcomeAll right :=
  List.forM_append

theorem outcomeAll_cons (check : Check) (rest : List Check) :
    outcomeAll (check :: rest) = check.outcome >>= fun _ => outcomeAll rest := rfl

theorem outcomeAll_singleton (check : Check) : outcomeAll [check] = check.outcome :=
  bind_pure check.outcome

/-- A row of checks succeeds exactly if all of them pass. -/
theorem outcomeAll_eq_ok {checks : List Check} :
    outcomeAll checks = .ok () ↔ ∀ check ∈ checks, check.passes := by
  induction checks with
  | nil => exact ⟨fun _ => by simp, fun _ => rfl⟩
  | cons check rest induction =>
      rw [outcomeAll_cons, Error.bind_eq_ok, List.forall_mem_cons, passes_iff, ← induction]
      constructor
      · rintro ⟨⟨⟩, first, later⟩
        exact ⟨first, later⟩
      · rintro ⟨first, later⟩
        exact ⟨(), first, later⟩

/-- The error of a row of checks is that of the first one that fails. -/
theorem outcomeAll_eq_error {checks : List Check} {error : Error} :
    outcomeAll checks = .error error ↔ ∃ passed failing rest,
      checks = passed ++ failing :: rest ∧ (∀ check ∈ passed, check.passes) ∧
        failing.outcome = .error error := by
  constructor
  · intro failed
    induction checks with
    | nil => cases failed
    | cons check rest induction =>
        rw [outcomeAll_cons] at failed
        cases result : check.outcome with
        | error found =>
            rw [result] at failed
            obtain rfl : found = error := by simpa [bind, Except.bind] using failed
            exact ⟨[], check, rest, rfl, by simp, result⟩
        | ok value =>
            rw [result] at failed
            obtain ⟨passed, failing, others, rfl, all, last⟩ := induction failed
            refine ⟨check :: passed, failing, others, rfl, ?_, last⟩
            exact List.forall_mem_cons.mpr ⟨passes_iff.mpr result, all⟩
  · rintro ⟨passed, failing, rest, rfl, all, last⟩
    rw [outcomeAll_append, outcomeAll_eq_ok.mpr all, outcomeAll_cons, last]
    rfl

theorem mem_lookedUp {checks : List Check} {text : Text} :
    text ∈ lookedUp checks ↔ .condition text ∈ checks.takeWhile passes := by
  rw [lookedUp, List.mem_filterMap]
  constructor
  · rintro ⟨_ | _, member, same⟩
    · obtain rfl := Option.some.inj same
      exact member
    · cases same
  · intro member
    exact ⟨_, member, rfl⟩

theorem lookedUp_of_tree {text : Text} {tree : Node} (parsed : Condition.tree text = .ok tree) :
    lookedUp [condition text] = [text] := by
  rw [lookedUp, List.takeWhile_cons_of_pos (passes_condition_iff.mpr ⟨tree, parsed⟩)]
  rfl

theorem lookedUp_of_error {check : Check} {error : Error} (failed : check.outcome = .error error) :
    lookedUp [check] = [] := by
  rw [lookedUp, List.takeWhile_cons_of_neg (not_passes_of_error failed)]
  rfl

theorem lookedUp_window (text : Text) : lookedUp [window text] = [] := by
  cases result : passes (window text) with
  | true => rw [lookedUp, List.takeWhile_cons_of_pos result]; rfl
  | false => rw [lookedUp, List.takeWhile_cons_of_neg (by simp [result])]; rfl

/-- Conditions that are looked up before the first failure have a tree. -/
theorem exists_tree_of_mem_lookedUp {checks : List Check} {text : Text}
    (member : text ∈ lookedUp checks) : ∃ tree, Condition.tree text = .ok tree :=
  passes_condition_iff.mp (List.mem_takeWhile_imp (mem_lookedUp.mp member))

/-- Checks that all pass are followed by the next ones. -/
theorem lookedUp_append_of_ok {left : List Check} (right : List Check)
    (passed : outcomeAll left = .ok ()) :
    lookedUp (left ++ right) = lookedUp left ++ lookedUp right := by
  have all := outcomeAll_eq_ok.mp passed
  rw [lookedUp, List.takeWhile_append_of_pos all, List.filterMap_append, lookedUp, lookedUp,
    List.takeWhile_eq_self_iff.mpr all]

/-- Nothing is looked up after a check that fails. -/
theorem lookedUp_append_of_error {left : List Check} {error : Error} (right : List Check)
    (failed : outcomeAll left = .error error) : lookedUp (left ++ right) = lookedUp left := by
  obtain ⟨passed, failing, rest, rfl, all, last⟩ := outcomeAll_eq_error.mp failed
  have refused := not_passes_of_error last
  rw [lookedUp, lookedUp, List.append_assoc, List.takeWhile_append_of_pos all,
    List.takeWhile_append_of_pos all, List.cons_append, List.takeWhile_cons_of_neg refused,
    List.takeWhile_cons_of_neg refused]

end Check

end DataCondition
