import DataCondition.Error
import DataCondition.Numeral.Whole

/-!
# Time windows

A window bounds the distance between two events from below and above, in one unit for both bounds.
-/

namespace DataCondition

/-- The unit of a time window. -/
inductive Window.Unit where
  | second
  | minute
  | hour
  | day
deriving DecidableEq, Repr

namespace Window.Unit

/-- The length of a unit in seconds. -/
def seconds : Unit → Nat
  | .second => 1
  | .minute => 60
  | .hour => 3600
  | .day => 86400

/-- The unit that a letter stands for. -/
def ofText? : Text → Option Unit
  | ['s'] => some .second
  | ['m'] => some .minute
  | ['h'] => some .hour
  | ['d'] => some .day
  | _ => none

end Window.Unit

/-- The allowed distance between two events. -/
structure Window where
  min : UInt64
  max : UInt64
  unit : Window.Unit
deriving DecidableEq, Repr

namespace Window

/-- A number of units in seconds; what does not fit becomes the largest number that does. -/
def inSeconds (unit : Unit) (count : UInt64) : UInt64 :=
  UInt64.ofNatClamp (count.toNat * unit.seconds)

/-- Both bounds in seconds. -/
def seconds (window : Window) : UInt64 × UInt64 :=
  (inSeconds window.unit window.min, inSeconds window.unit window.max)

/-- A bound of the window that `text` describes. -/
def bound (text word : Text) : Except Error UInt64 :=
  match Numeral.uint64? word with
  | some value => .ok value
  | none => .error (.invalidConstraint (.invalidBound word) text)

/-- Reads the minimum, the maximum and the unit, with commas between them. -/
def ofText (text : Text) : Except Error Window :=
  match (text.splitOn ',').map Text.trim with
  | [minimum, maximum, unit] => do
    let min ← bound text minimum
    let max ← bound text maximum
    match Unit.ofText? unit with
    | none => throw (.invalidConstraint (.invalidUnit unit) text)
    | some unit =>
      if max < min then throw (.invalidConstraint .reversedWindow text)
      else if UInt64.size ≤ max.toNat * unit.seconds then
        throw (.invalidConstraint .oversizedWindow text)
      else return ⟨min, max, unit⟩
  | _ => .error (.invalidConstraint .shapelessWindow text)

end Window

end DataCondition
