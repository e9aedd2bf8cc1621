import DataCondition.Constraint.Parsed
import DataCondition.Proofs.Cache.Lookup

/-!
# What parsing a constraint checks

A constraint is checked field by field: the activation, the correlation and the time window, each if
it is there. The cache decides neither whether the constraint parses nor what it parses to.
-/

namespace DataCondition

namespace Constraint

/-- The checks of a constraint, in the order in which they are made. -/
def checks (constraint : Constraint) : List Check :=
  constraint.activation.toList.map .condition ++
    (constraint.correlation.toList.map .condition ++ constraint.time.toList.map .window)

/-- Parses a constraint without a cache. -/
def parseFresh (constraint : Constraint) : Except Error ParsedConstraint := do
  let activation ← constraint.activation.mapM Condition.tree
  let correlation ← constraint.correlation.mapM Condition.tree
  let time ← constraint.time.mapM Window.ofText
  return ⟨constraint.template, constraint.activities, activation, correlation, time⟩

/-- Parses constraints without a cache, up to the first that fails. -/
def parseAllFresh (constraints : List Constraint) : Except Error (List ParsedConstraint) :=
  constraints.mapM parseFresh

/-- A constraint with its conditions parsed and everything else as it was. -/
structure IsParsed (constraint : Constraint) (parsed : ParsedConstraint) : Prop where
  template : parsed.template = constraint.template
  activities : parsed.activities = constraint.activities
  activation : constraint.activation.mapM Condition.tree = .ok parsed.activation
  correlation : constraint.correlation.mapM Condition.tree = .ok parsed.correlation
  time : constraint.time.mapM Window.ofText = .ok parsed.time

theorem performs_parse (constraint : Constraint) :
    Performs constraint.parse constraint.parseFresh constraint.checks := by
  apply (Performs.optionMapM Performs.lookup constraint.activation).bind
  intro activation
  apply (Performs.optionMapM Performs.lookup constraint.correlation).bind
  intro correlation
  exact (Performs.optionMapM Performs.window constraint.time).map
    (ParsedConstraint.mk constraint.template constraint.activities activation correlation)

theorem performs_parseAll (constraints : List Constraint) :
    Performs (parseAll constraints) (parseAllFresh constraints) (constraints.flatMap checks) :=
  .listMapM performs_parse constraints

theorem isParsed_of_parseFresh {constraint : Constraint} {parsed : ParsedConstraint}
    (succeeded : constraint.parseFresh = .ok parsed) : constraint.IsParsed parsed := by
  obtain ⟨activation, activated, succeeded⟩ := Error.bind_eq_ok.mp succeeded
  obtain ⟨correlation, correlated, succeeded⟩ := Error.bind_eq_ok.mp succeeded
  obtain ⟨time, timed, succeeded⟩ := Error.bind_eq_ok.mp succeeded
  obtain rfl := Except.ok.inj succeeded
  exact ⟨rfl, rfl, activated, correlated, timed⟩

/-- Constraints are parsed one by one and stay in their order. -/
theorem forall₂_isParsed_of_parseAllFresh {constraints : List Constraint}
    {parsed : List ParsedConstraint} (succeeded : parseAllFresh constraints = .ok parsed) :
    List.Forall₂ IsParsed constraints parsed :=
  (Error.mapM_eq_ok.mp succeeded).imp fun _ _ => isParsed_of_parseFresh

end Constraint

end DataCondition
