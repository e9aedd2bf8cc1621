import DataCondition.Cache
import DataCondition.Proofs.Cache.Check

/-!
# Computations that look trees up

A computation with a cache gives what it gives without one. The trees it has looked up before it
failed, if it failed, are in the cache afterwards, beside those that were there before.
-/

namespace DataCondition

namespace Cache

variable {cache before after : Cache} {conditions : List Text}

/-- The tree that is remembered for a condition. -/
def tree? (cache : Cache) (condition : Text) : Option Node :=
  cache.trees[String.ofList condition]?

/-- The trees that are remembered are those of their conditions. -/
def IsSound (cache : Cache) : Prop :=
  ∀ condition tree, cache.tree? condition = some tree → Condition.tree condition = .ok tree

/-- The trees of the conditions are remembered `after`, and otherwise what was `before`. -/
structure Adds (conditions : List Text) (before after : Cache) : Prop where
  added (condition : Text) : condition ∈ conditions →
    after.tree? condition = (Condition.tree condition).toOption
  kept (condition : Text) : condition ∉ conditions →
    after.tree? condition = before.tree? condition

theorem tree?_empty (capacity : Nat) (condition : Text) : (empty capacity).tree? condition = none :=
  Std.HashMap.getElem?_emptyWithCapacity

theorem tree?_insert (cache : Cache) (inserted condition : Text) (tree : Node) :
    tree? ⟨cache.trees.insert (String.ofList inserted) tree⟩ condition =
      if condition = inserted then some tree else cache.tree? condition := by
  rw [tree?, Std.HashMap.getElem?_insert]
  simp only [beq_iff_eq, String.ofList_inj, eq_comm (a := inserted), tree?]

theorem isSound_empty (capacity : Nat) : (empty capacity).IsSound := by
  intro condition tree found
  rw [tree?_empty] at found
  cases found

theorem Adds.refl (cache : Cache) : Adds [] cache cache where
  added _ member := absurd member List.not_mem_nil
  kept _ _ := rfl

theorem Adds.trans {middle : Cache} {later : List Text} (first : Adds conditions before middle)
    (second : Adds later middle after) : Adds (conditions ++ later) before after where
  added condition member := by
    by_cases inLater : condition ∈ later
    · exact second.added condition inLater
    · rw [second.kept condition inLater]
      exact first.added condition ((List.mem_append.mp member).resolve_right inLater)
  kept condition missing := by
    rw [List.mem_append, not_or] at missing
    rw [second.kept condition missing.2, first.kept condition missing.1]

theorem Adds.isSound (adds : Adds conditions before after) (sound : before.IsSound) :
    after.IsSound := by
  intro condition tree found
  by_cases member : condition ∈ conditions
  · rw [adds.added condition member] at found
    exact Error.eq_ok_of_toOption found
  · rw [adds.kept condition member] at found
    exact sound condition tree found

theorem Adds.isSome_iff (adds : Adds conditions before after)
    (accepted : ∀ condition ∈ conditions, ∃ tree, Condition.tree condition = .ok tree)
    {condition : Text} :
    (after.tree? condition).isSome ↔
      (before.tree? condition).isSome ∨ condition ∈ conditions := by
  by_cases member : condition ∈ conditions
  · obtain ⟨tree, parsed⟩ := accepted condition member
    rw [adds.added condition member, parsed]
    simp [member, Except.toOption]
  · rw [adds.kept condition member, or_iff_left member]

/-- What a sound cache remembers does not change. -/
theorem Adds.tree?_of_isSound (adds : Adds conditions before after) (sound : before.IsSound)
    {condition : Text} {tree : Node} (found : before.tree? condition = some tree) :
    after.tree? condition = some tree := by
  by_cases member : condition ∈ conditions
  · rw [adds.added condition member, sound condition tree found]
    rfl
  · rw [adds.kept condition member, found]

theorem run_get (cache : Cache) : (get : Cached Cache).run.run cache = (.ok cache, cache) := rfl

theorem run_lookup_of_some {condition : Text} {tree : Node}
    (found : cache.tree? condition = some tree) :
    (lookup condition).run.run cache = (.ok tree, cache) := by
  rw [tree?] at found
  simp only [lookup, ExceptT.run_bind, StateT.run_bind, run_get]
  change StateT.run (ExceptT.run _) cache = _
  rw [found]
  rfl

/-- A condition that is not remembered is parsed, and remembered if it has a tree. -/
theorem run_lookup_of_none {condition : Text} (missing : cache.tree? condition = none) :
    (lookup condition).run.run cache = ((do
      let tree ← Condition.tree condition
      modify fun cache => ⟨cache.trees.insert (String.ofList condition) tree⟩
      return tree) : Cached Node).run.run cache := by
  rw [tree?] at missing
  simp only [lookup, ExceptT.run_bind, StateT.run_bind, run_get]
  change StateT.run (ExceptT.run _) cache = _
  rw [missing]
  rfl

theorem adds_remembered {condition : Text} {tree : Node}
    (parsed : Condition.tree condition = .ok tree) (found : cache.tree? condition = some tree) :
    cache.Adds [condition] cache where
  added other member := by
    obtain rfl := List.mem_singleton.mp member
    rw [parsed, found]
    rfl
  kept _ _ := rfl

theorem adds_insert (cache : Cache) {condition : Text} {tree : Node}
    (parsed : Condition.tree condition = .ok tree) :
    cache.Adds [condition] ⟨cache.trees.insert (String.ofList condition) tree⟩ where
  added other member := by
    obtain rfl := List.mem_singleton.mp member
    rw [tree?_insert, if_pos rfl, parsed]
    rfl
  kept other missing := by
    rw [tree?_insert, if_neg fun same => missing (List.mem_singleton.mpr same)]

end Cache

/-- The computation gives `fresh` from every sound cache. It fails as the `checks` do, in their
order, and the conditions it has looked up are added to the cache. -/
structure Performs {α : Type} (cached : Cached α) (fresh : Except Error α) (checks : List Check) :
    Prop where
  outcome : fresh.map (fun _ => ()) = Check.outcomeAll checks
  run (cache : Cache) : cache.IsSound →
    ∃ after, cached.run.run cache = (fresh, after) ∧ cache.Adds (Check.lookedUp checks) after

namespace Performs

variable {α β : Type} {cached : Cached α} {fresh : Except Error α} {checks : List Check}

/-- A computation succeeds exactly if all its checks pass. -/
theorem exists_ok_iff (performed : Performs cached fresh checks) :
    (∃ value, fresh = .ok value) ↔ ∀ check ∈ checks, check.passes := by
  rw [← Check.outcomeAll_eq_ok, ← performed.outcome]
  cases fresh with
  | error error => simp [Except.map]
  | ok value => simp [Except.map]

/-- A computation fails as the first check that fails. -/
theorem eq_error_iff (performed : Performs cached fresh checks) {error : Error} :
    fresh = .error error ↔ ∃ passed failing rest,
      checks = passed ++ failing :: rest ∧ (∀ check ∈ passed, check.passes) ∧
        failing.outcome = .error error := by
  rw [← Check.outcomeAll_eq_error, ← performed.outcome]
  cases fresh with
  | error error => simp [Except.map]
  | ok value => simp [Except.map]

theorem pure (value : α) : Performs (Pure.pure value) (.ok value) [] where
  outcome := rfl
  run cache _ := ⟨cache, rfl, .refl cache⟩

/-- The later computation is performed only if the first one succeeds. -/
theorem bind {later : α → Cached β} {freshLater : α → Except Error β} {laterChecks : List Check}
    (first : Performs cached fresh checks)
    (second : ∀ value, Performs (later value) (freshLater value) laterChecks) :
    Performs (cached >>= later) (fresh >>= freshLater) (checks ++ laterChecks) := by
  obtain ⟨outcome, run⟩ := first
  -- a first computation that fails leaves no checks to the second
  cases fresh with
  | error error =>
      constructor
      · rw [Check.outcomeAll_append, ← outcome]
        rfl
      · intro cache sound
        obtain ⟨after, ran, adds⟩ := run cache sound
        refine ⟨after, ?_, ?_⟩
        · rw [ExceptT.run_bind, StateT.run_bind, ran]
          rfl
        · rwa [Check.lookedUp_append_of_error _ outcome.symm]
  | ok value =>
      constructor
      · rw [Check.outcomeAll_append, ← outcome]
        exact (second value).outcome
      · intro cache sound
        obtain ⟨middle, ran, adds⟩ := run cache sound
        obtain ⟨after, ranLater, addsLater⟩ := (second value).run middle (adds.isSound sound)
        refine ⟨after, ?_, ?_⟩
        · rw [ExceptT.run_bind, StateT.run_bind, ran]
          exact ranLater
        · rw [Check.lookedUp_append_of_ok _ outcome.symm]
          exact adds.trans addsLater

/-- A condition that is remembered need not be added; one that does not parse is not. -/
theorem lookup (condition : Text) :
    Performs (Cache.lookup condition) (Condition.tree condition) [.condition condition] := by
  constructor
  · exact (Check.outcomeAll_singleton (.condition condition)).symm
  · intro cache sound
    cases found : cache.tree? condition with
    | some tree =>
        have parsed := sound condition tree found
        rw [parsed, Check.lookedUp_of_tree parsed]
        exact ⟨cache, Cache.run_lookup_of_some found, Cache.adds_remembered parsed found⟩
    | none =>
        rw [Cache.run_lookup_of_none found]
        cases parsed : Condition.tree condition with
        | ok tree =>
            rw [Check.lookedUp_of_tree parsed]
            exact ⟨_, rfl, Cache.adds_insert cache parsed⟩
        | error error =>
            have failed : (Check.condition condition).outcome = .error error := by
              rw [Check.outcome, parsed]
              rfl
            rw [Check.lookedUp_of_error failed]
            exact ⟨cache, rfl, .refl cache⟩

theorem window (text : Text) :
    Performs (liftM (Window.ofText text)) (Window.ofText text) [.window text] := by
  constructor
  · exact (Check.outcomeAll_singleton (.window text)).symm
  · intro cache _
    refine ⟨cache, ?_, ?_⟩
    · rfl
    · rw [Check.lookedUp_window]
      exact .refl cache

theorem map (function : α → β) (performed : Performs cached fresh checks) :
    Performs (function <$> cached) (function <$> fresh) checks := by
  rw [map_eq_pure_bind, map_eq_pure_bind, ← List.append_nil checks]
  exact performed.bind fun value => .pure (function value)

/-- What is absent needs no check. -/
theorem optionMapM {cached : α → Cached β} {fresh : α → Except Error β} {check : α → Check}
    (each : ∀ item, Performs (cached item) (fresh item) [check item]) (item? : Option α) :
    Performs (item?.mapM cached) (item?.mapM fresh) (item?.toList.map check) := by
  cases item? with
  | none => exact .pure none
  | some item => exact (each item).map some

/-- A list is performed item by item. -/
theorem listMapM {cached : α → Cached β} {fresh : α → Except Error β} {checks : α → List Check}
    (each : ∀ item, Performs (cached item) (fresh item) (checks item)) (items : List α) :
    Performs (items.mapM cached) (items.mapM fresh) (items.flatMap checks) := by
  induction items with
  | nil => exact .pure []
  | cons item rest induction =>
      rw [List.mapM_cons, List.mapM_cons, List.flatMap_cons]
      exact (each item).bind fun first => induction.map (first :: ·)

end Performs

end DataCondition
