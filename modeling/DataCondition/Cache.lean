import Std.Data.HashMap
import DataCondition.Condition

/-!
# Remembering trees

A cache keeps the tree of every condition that was looked up and parsed. Conditions that do not
parse are not kept, and a computation that fails leaves what it has looked up so far.
-/

namespace DataCondition

/-- The trees of conditions by their text. -/
structure Cache where
  trees : Std.HashMap String Node

/-- A computation that may fail and that uses a cache; the cache outlives the failure. -/
abbrev Cached := ExceptT Error (StateM Cache)

namespace Cache

/-- A cache without trees, with room for some. -/
def empty (capacity : Nat) : Cache := ⟨Std.HashMap.emptyWithCapacity capacity⟩

/-- How many conditions are remembered. -/
def size (cache : Cache) : Nat := cache.trees.size

/-- Whether no condition is remembered. -/
def isEmpty (cache : Cache) : Bool := cache.trees.isEmpty

/-- The tree of a condition, from the cache or else parsed and put there. -/
def lookup (condition : Text) : Cached Node := do
  let key := String.ofList condition
  match (← get).trees[key]? with
  | some tree => return tree
  | none =>
    let tree ← Condition.tree condition
    modify fun cache => ⟨cache.trees.insert key tree⟩
    return tree

/-- Forgets all trees. -/
def clear : Cached Unit :=
  set (empty 0)

end Cache

end DataCondition
