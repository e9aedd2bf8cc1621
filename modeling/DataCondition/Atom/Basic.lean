import DataCondition.Vocabulary

/-!
# Atoms

An atom tests one attribute: it compares it with a literal, or asks for it in a list of literals.
-/

namespace DataCondition

/-- An attribute; a name before its first dot tells which event it belongs to. -/
structure Attribute where
  scope : Option Text
  name : Text
deriving DecidableEq, Repr

/-- A literal. -/
inductive Scalar where
  | integer (value : Int64)
  | real (value : Float)
  | boolean (value : Bool)
  | text (value : Text)
deriving DecidableEq, Repr

/-- What is asked of an attribute. -/
inductive Test where
  | compare (operator : Comparison) (literal : Scalar)
  | search (operator : Membership) (literals : List Scalar)
deriving DecidableEq, Repr

/-- The operator of a test. -/
def Test.operator : Test → Operator
  | .compare operator _ => .comparison operator
  | .search operator _ => .membership operator

/-- A test of an attribute. -/
structure Atom where
  subject : Attribute
  test : Test
deriving DecidableEq, Repr

end DataCondition
