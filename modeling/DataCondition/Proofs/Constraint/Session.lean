import Mathlib.Data.List.Dedup
import DataCondition.Proofs.Constraint.Parsed

/-!
# Sessions on one cache

A session makes requests one after the other on the same cache. Each is answered as if there were no
cache, also after others have failed or the cache was cleared; the cache holds the conditions that
were looked up and parsed since it was last cleared. Constraints that are parsed together fail at
the first check that fails, and what was looked up before it stays in the cache.
-/

namespace DataCondition

namespace Cache

variable {cache after : Cache} {conditions : List Text}

/-- The cache remembers the trees of exactly these conditions. -/
structure Holds (conditions : List Text) (cache : Cache) : Prop where
  sound : cache.IsSound
  isSome_iff (condition : Text) : (cache.tree? condition).isSome ↔ condition ∈ conditions

theorem holds_empty (capacity : Nat) : (empty capacity).Holds [] where
  sound := isSound_empty capacity
  isSome_iff condition := by simp [tree?_empty]

theorem Holds.of_adds {added : List Text} (holds : cache.Holds conditions)
    (adds : cache.Adds added after)
    (accepted : ∀ condition ∈ added, ∃ tree, Condition.tree condition = .ok tree) :
    after.Holds (conditions ++ added) where
  sound := adds.isSound holds.sound
  isSome_iff condition := by
    rw [adds.isSome_iff accepted, holds.isSome_iff, List.mem_append]

/-- A condition is held once, however often it was looked up. -/
theorem Holds.size_eq (holds : cache.Holds conditions) :
    cache.size = conditions.dedup.length := by
  have same : cache.trees.keys.Perm (conditions.dedup.map String.ofList) := by
    apply (List.perm_ext_iff_of_nodup Std.HashMap.nodup_keys ?_).mpr
    · intro key
      obtain ⟨condition, rfl⟩ : ∃ condition, String.ofList condition = key :=
        ⟨key.toList, String.ofList_toList⟩
      rw [Std.HashMap.mem_keys, ← Std.HashMap.isSome_getElem?_iff_mem,
        List.mem_map_of_injective fun _ _ => String.ofList_inj.mp, List.mem_dedup]
      exact holds.isSome_iff condition
    · exact (List.nodup_dedup conditions).map fun _ _ => String.ofList_inj.mp
  rw [size, ← Std.HashMap.length_keys, same.length_eq, List.length_map]

end Cache

/-- What can be asked of a cache. -/
inductive Request where
  | lookup (condition : Text)
  | clear
  | parse (constraint : Constraint)
  | parseAll (constraints : List Constraint)

/-- What a request is answered with if it succeeds. -/
inductive Answer where
  | tree (tree : Node)
  | cleared
  | parsed (parsed : ParsedConstraint)
  | parsedAll (parsed : List ParsedConstraint)

namespace Request

/-- Makes a request on a cache. -/
def run : Request → Cached Answer
  | .lookup condition => Answer.tree <$> Cache.lookup condition
  | .clear => (fun _ => Answer.cleared) <$> Cache.clear
  | .parse constraint => Answer.parsed <$> constraint.parse
  | .parseAll constraints => Answer.parsedAll <$> Constraint.parseAll constraints

/-- Answers a request without a cache. -/
def fresh : Request → Except Error Answer
  | .lookup condition => Answer.tree <$> Condition.tree condition
  | .clear => .ok .cleared
  | .parse constraint => Answer.parsed <$> constraint.parseFresh
  | .parseAll constraints => Answer.parsedAll <$> Constraint.parseAllFresh constraints

/-- The checks that a request makes, in their order. -/
def checks : Request → List Check
  | .lookup condition => [.condition condition]
  | .clear => []
  | .parse constraint => constraint.checks
  | .parseAll constraints => constraints.flatMap Constraint.checks

/-- The conditions that are remembered after a request, if `conditions` were before. -/
def remember (conditions : List Text) (request : Request) : List Text :=
  match request with
  | .clear => []
  | _ => conditions ++ Check.lookedUp request.checks

/-- Makes requests in order; one that fails does not end the session. -/
def runAll (requests : List Request) : StateM Cache (List (Except Error Answer)) :=
  requests.mapM fun request => request.run.run

/-- The conditions that were looked up and parsed since the cache was last cleared. -/
def remembered (requests : List Request) : List Text := requests.foldl remember []

/-- A computation that looks trees up is a step of a session. -/
theorem exists_run_of_performs {α : Type} {cached : Cached α} {fresh : Except Error α}
    {checks : List Check} {cache : Cache} {conditions : List Text}
    (performed : Performs cached fresh checks) (holds : cache.Holds conditions) :
    ∃ after, cached.run.run cache = (fresh, after) ∧
      after.Holds (conditions ++ Check.lookedUp checks) := by
  obtain ⟨after, ran, adds⟩ := performed.run cache holds.sound
  exact ⟨after, ran, holds.of_adds adds fun _ => Check.exists_tree_of_mem_lookedUp⟩

/-- One request is answered as without a cache. -/
theorem exists_run (request : Request) {cache : Cache} {conditions : List Text}
    (holds : cache.Holds conditions) :
    ∃ after, request.run.run.run cache = (request.fresh, after) ∧
      after.Holds (request.remember conditions) := by
  cases request with
  | lookup condition => exact exists_run_of_performs ((Performs.lookup condition).map _) holds
  | clear => exact ⟨_, rfl, Cache.holds_empty 0⟩
  | parse constraint => exact exists_run_of_performs (constraint.performs_parse.map _) holds
  | parseAll constraints =>
      exact exists_run_of_performs ((Constraint.performs_parseAll constraints).map _) holds

/-- A session is answered request by request. -/
theorem exists_runAll (requests : List Request) {cache : Cache} {conditions : List Text}
    (holds : cache.Holds conditions) :
    ∃ after, (runAll requests).run cache = (requests.map fresh, after) ∧
      after.Holds (requests.foldl remember conditions) := by
  induction requests generalizing cache conditions with
  | nil => exact ⟨cache, rfl, holds⟩
  | cons request rest induction =>
      obtain ⟨middle, first, holdsMiddle⟩ := request.exists_run holds
      obtain ⟨after, later, holdsAfter⟩ := induction holdsMiddle
      refine ⟨after, ?_, holdsAfter⟩
      rw [runAll, List.mapM_cons, StateT.run_bind, first]
      change ((fun answers => request.fresh :: answers) <$> runAll rest).run middle = _
      rw [StateT.run_map, later]
      rfl

/-- Every session on a new cache is answered as without a cache, and the cache holds the
conditions that were looked up and parsed since it was last cleared, each once. -/
theorem runAll_eq_fresh (capacity : Nat) (requests : List Request) :
    ∃ cache, (runAll requests).run (Cache.empty capacity) = (requests.map fresh, cache) ∧
      (∀ condition tree, cache.tree? condition = some tree → Condition.tree condition = .ok tree) ∧
      (∀ condition, (cache.tree? condition).isSome ↔ condition ∈ remembered requests) ∧
      cache.size = (remembered requests).dedup.length ∧
      (cache.isEmpty ↔ (remembered requests).dedup.length = 0) := by
  obtain ⟨cache, ran, holds⟩ := exists_runAll requests (Cache.holds_empty capacity)
  refine ⟨cache, ran, holds.sound, holds.isSome_iff, holds.size_eq, ?_⟩
  rw [remembered, ← holds.size_eq, Cache.isEmpty, Std.HashMap.isEmpty_eq_size_eq_zero, beq_iff_eq,
    Cache.size]

end Request

namespace Constraint

/-- Constraints that are parsed together, at any point of a session, are parsed if all their checks
pass and fail as the first check that does not. The cache keeps what it held and gains the
conditions that were checked before that one. -/
theorem run_parseAll (capacity : Nat) (earlier : List Request) (constraints : List Constraint) :
    let before := ((Request.runAll earlier).run (Cache.empty capacity)).2
    let checks := constraints.flatMap Constraint.checks
    ∃ result after, (parseAll constraints).run.run before = (result, after) ∧
      ((∃ parsed, result = .ok parsed) ↔ ∀ check ∈ checks, check.passes) ∧
      (∀ parsed, result = .ok parsed → List.Forall₂ IsParsed constraints parsed) ∧
      (∀ error, result = .error error ↔ ∃ passed failing rest,
        checks = passed ++ failing :: rest ∧ (∀ check ∈ passed, check.passes) ∧
          failing.outcome = .error error) ∧
      (∀ condition, (after.tree? condition).isSome ↔
        (before.tree? condition).isSome ∨
          .condition condition ∈ checks.takeWhile Check.passes) ∧
      ∀ condition tree, before.tree? condition = some tree → after.tree? condition = some tree := by
  intro before checks
  obtain ⟨cache, ran, holds⟩ := Request.exists_runAll earlier (Cache.holds_empty capacity)
  have reached : before = cache := congrArg Prod.snd ran
  have sound : before.IsSound := reached ▸ holds.sound
  have performed := performs_parseAll constraints
  obtain ⟨after, parsedAll, adds⟩ := performed.run before sound
  refine ⟨parseAllFresh constraints, after, parsedAll, performed.exists_ok_iff,
    fun _ => forall₂_isParsed_of_parseAllFresh, fun _ => performed.eq_error_iff, ?_, ?_⟩
  · intro condition
    rw [adds.isSome_iff fun _ => Check.exists_tree_of_mem_lookedUp, Check.mem_lookedUp]
  · intro condition tree
    exact adds.tree?_of_isSound sound

end Constraint

end DataCondition
