import DataCondition.Cache
import DataCondition.Constraint.Basic
import DataCondition.Constraint.Window

/-!
# Constraints with parsed conditions

The conditions of a constraint are parsed and its time window is read, in this order, with one cache
for all conditions.
-/

namespace DataCondition

/-- A constraint with its conditions parsed. -/
structure ParsedConstraint where
  template : Text
  activities : List Text
  activation : Option Node
  correlation : Option Node
  time : Option Window
deriving DecidableEq

namespace Constraint

/-- Parses the conditions of a constraint, up to the first that fails. -/
def parse (constraint : Constraint) : Cached ParsedConstraint := do
  let activation ← constraint.activation.mapM Cache.lookup
  let correlation ← constraint.correlation.mapM Cache.lookup
  let time ← constraint.time.mapM fun text => (Window.ofText text : Cached Window)
  return ⟨constraint.template, constraint.activities, activation, correlation, time⟩

/-- Parses the conditions of constraints in order, up to the first that fails. -/
def parseAll (constraints : List Constraint) : Cached (List ParsedConstraint) :=
  constraints.mapM parse

end Constraint

end DataCondition
