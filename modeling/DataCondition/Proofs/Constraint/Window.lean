import DataCondition.Constraint.Window
import DataCondition.Proofs.Error
import DataCondition.Proofs.Numeral.Whole
import DataCondition.Proofs.Text.Parts

/-!
# Which texts describe time windows

A window is read from three parts between two commas. Its maximum fits in seconds, and so does its
minimum, which is no larger; a window that is not read from a text need not fit, and its seconds
stop at the largest number there is.
-/

namespace DataCondition

namespace Window

open Text (trim)

/-- The letter that stands for a unit. -/
def Unit.letter : Unit → Text
  | .second => ['s']
  | .minute => ['m']
  | .hour => ['h']
  | .day => ['d']

/-- The longest window of days that fits in seconds, and one that does not fit any more. -/
example : (ofText "0, +213503982334601 ,d".toList).isOk ∧
    ofText "0,213503982334602,d".toList =
      .error (.invalidConstraint .oversizedWindow "0,213503982334602,d".toList) := by
  decide +kernel

end Window

end DataCondition
