import DataCondition.Json.Fault
import DataCondition.Vocabulary

/-!
# Errors and their wording

An error names its cause; the wording of all causes is in one place.
-/

namespace DataCondition

/-- The parenthesis of a pair that is there while the other one is missing. -/
inductive Unmatched where
  | opening
  | closing
deriving DecidableEq, Repr

/-- Why the text of an atom does not decode. -/
inductive AtomFault where
  | unparenthesisedList
  | noOperator
  | unknownOperator
  | missingValue
  | missingAttribute
deriving DecidableEq, Repr

/-- Why the text of a constraint or of its time window is refused. -/
inductive ConstraintFault where
  | shapelessWindow
  | invalidBound (bound : Text)
  | invalidUnit (unit : Text)
  | reversedWindow
  | oversizedWindow
  | shapelessHead
  | missingTemplate
  | surplusSegments
deriving DecidableEq, Repr

/-- Why a condition or a constraint is refused. Positions count words or tokens from zero. -/
inductive Error where
  /-- There is nothing in the condition. -/
  | emptyCondition
  /-- No list follows a membership word; `found` is what follows instead, if anything. -/
  | missingList (operator : Membership) (position : Nat) (found : Option Text)
  /-- Nothing that a membership word could test stands before it. -/
  | missingSubject (operator : Membership) (position : Nat)
  | unbalanced (unmatched : Unmatched) (position : Nat)
  | tooDeep (depth position limit : Nat)
  /-- A pair of parentheses has nothing inside; `node` is its number. -/
  | emptyGroup (node : Nat)
  /-- A connective has nothing on one of its sides. -/
  | missingOperand (connective : Connective)
  /-- Two operands stand side by side. -/
  | missingConnective (left right : Text)
  | invalidAtom (fault : AtomFault) (text : Text)
  | invalidConstraint (fault : ConstraintFault) (text : Text)
  | invalidJson (fault : Json.Fault)
deriving DecidableEq, Repr

/-- The wording of an unmatched parenthesis. -/
def Unmatched.message : Unmatched → String
  | .opening => "unclosed '('"
  | .closing => "unexpected ')'"

/-- The wording of a fault in an atom. -/
def AtomFault.message : AtomFault → String
  | .unparenthesisedList => "membership list must be parenthesised"
  | .noOperator => "No operator found in"
  | .unknownOperator => "Unknown operator in"
  | .missingValue => "Missing value in"
  | .missingAttribute => "Missing attribute in"

/-- The wording of a fault in a constraint. -/
def ConstraintFault.message : ConstraintFault → String
  | .shapelessWindow => "time condition must be 'min,max,unit'"
  | .invalidBound bound => "invalid time bound '" ++ String.ofList bound ++ "' in"
  | .invalidUnit unit => "invalid time unit '" ++ String.ofList unit ++ "' in"
  | .reversedWindow => "time window minimum exceeds maximum"
  | .oversizedWindow => "time window does not fit in seconds"
  | .shapelessHead => "expected 'Template[activities]'"
  | .missingTemplate => "missing template name"
  | .surplusSegments => "too many '|' segments"

namespace Error

/-- The wording of an error; a fault in a JSON text has none but its kind. -/
def message : Error → String
  | .emptyCondition => "Empty condition"
  | .missingList operator position found =>
    let keyword := String.ofList operator.word
    let next := (found.map String.ofList).getD "end of input"
    s!"'{keyword}' at token {position} must be followed by '(', found {next}"
  | .missingSubject operator position =>
    let keyword := String.ofList operator.word
    s!"'{keyword}' at token {position} has no attribute on its left"
  | .unbalanced unmatched position =>
    let cause := unmatched.message
    s!"Unbalanced parentheses: {cause} at token {position}"
  | .tooDeep depth position limit =>
    s!"Parentheses nested {depth} deep at token {position}, limit is {limit}"
  | .emptyGroup node => s!"Empty parenthesised group (node {node})"
  | .missingOperand connective =>
    let word := String.ofList connective.word
    s!"'{word}' is missing an operand"
  | .missingConnective left right =>
    "Missing connective between '" ++ String.ofList left ++ "' and '" ++ String.ofList right ++ "'"
  | .invalidAtom fault text => "Invalid atom: " ++ fault.message ++ ": " ++ String.ofList text
  | .invalidConstraint fault text =>
    "Invalid constraint: " ++ fault.message ++ ": " ++ String.ofList text
  | .invalidJson .malformed => "malformed JSON"
  | .invalidJson .mistyped => "JSON of the wrong type"
  | .invalidJson .truncated => "JSON that ends too soon"

/-- Whether the error is in the text of a condition rather than around it. -/
def isInCondition : Error → Bool
  | .invalidConstraint _ _ | .invalidJson _ => false
  | _ => true

end Error

end DataCondition
