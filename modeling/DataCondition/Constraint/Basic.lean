import DataCondition.Error
import DataCondition.Text.Cut

/-!
# Constraints

A constraint applies a template to activities, under conditions on the events and on the time
between them. It is written on one line: the template, its activities in brackets, and up to three
conditions after bars.
-/

namespace DataCondition

/-- A constraint with its conditions as texts. -/
structure Constraint where
  template : Text
  activities : List Text
  /-- The condition on the activating event. -/
  activation : Option Text
  /-- The condition that relates the activating event to its target. -/
  correlation : Option Text
  /-- The time window. -/
  time : Option Text
deriving DecidableEq, Repr

namespace Constraint

/-- The activities between two brackets, with commas between them; blank ones do not count. -/
def activitiesOf (text : Text) : List Text :=
  (text.splitOn ',').filterMap Text.nonBlank?

/-- The conditions after the bars; those that are blank or missing at the end are absent. -/
def segments? : List Text → Option (Option Text × Option Text × Option Text)
  | [] => some (none, none, none)
  | [activation] => some (Text.nonBlank? activation, none, none)
  | [activation, correlation] =>
    some (Text.nonBlank? activation, Text.nonBlank? correlation, none)
  | [activation, correlation, time] =>
    some (Text.nonBlank? activation, Text.nonBlank? correlation, Text.nonBlank? time)
  | _ => none

/-- The template and its activities: the part before the first bracket, and what it encloses. -/
def head? (text : Text) : Option (Text × Text) := do
  let opened ← Text.dropClosing? ']' (Text.trim text)
  Text.cut ['['] opened

/-- Reads a constraint from its line. -/
def ofLine (line : Text) : Except Error Constraint :=
  let refuse (fault : ConstraintFault) := .error (.invalidConstraint fault line)
  let segments := line.splitOn '|'
  match head? (segments.headD []) with
  | none => refuse .shapelessHead
  | some (name, inner) =>
    match Text.nonBlank? name with
    | none => refuse .missingTemplate
    | some template =>
      match segments? segments.tail with
      | none => refuse .surplusSegments
      | some (activation, correlation, time) =>
        .ok ⟨template, activitiesOf inner, activation, correlation, time⟩

end Constraint

end DataCondition
