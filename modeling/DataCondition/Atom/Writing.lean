import DataCondition.Atom.Basic
import DataCondition.Json.Basic

/-!
# Writing atoms

An atom is written in the notation that it is read from, or as a JSON object.
-/

namespace DataCondition

/-- An attribute with the dot after its scope. -/
def Attribute.toText : Attribute → Text
  | ⟨some scope, name⟩ => scope ++ '.' :: name
  | ⟨none, name⟩ => name

namespace Scalar

/-- The text of a literal; numbers are written in full. -/
def toText : Scalar → Text
  | .integer value => Numeral.ofInt value.toInt
  | .real value => Numeral.Layout.plain.text value
  | .boolean true => "true".toList
  | .boolean false => "false".toList
  | .text value => value

/-- A literal as a JSON value. -/
def json : Scalar → Json
  | .integer value => .integer value.toInt
  | .real value => .real value
  | .boolean value => .boolean value
  | .text value => .string value

end Scalar

/-- The literals of a list with commas between them. -/
def Scalar.listText (literals : List Scalar) : Text :=
  [','].intercalate (literals.map Scalar.toText)

namespace Atom

/-- A comparison is written without spaces, a membership test with its list in parentheses. -/
def toText (atom : Atom) : Text :=
  match atom.test with
  | .compare operator literal => atom.subject.toText ++ operator.symbol ++ literal.toText
  | .search operator literals =>
    atom.subject.toText ++ ' ' :: operator.word ++ ' ' :: '(' :: Scalar.listText literals ++ [')']

end Atom

/-- The name of an operator in a JSON document. -/
def Operator.name : Operator → Text
  | .comparison .greater => "Greater".toList
  | .comparison .greaterEqual => "GreaterEqual".toList
  | .comparison .less => "Less".toList
  | .comparison .lessEqual => "LessEqual".toList
  | .comparison .equal => "Equal".toList
  | .comparison .notEqual => "NotEqual".toList
  | .membership .member => "In".toList
  | .membership .notMember => "NotIn".toList

/-- What an attribute is tested against, as a JSON value. -/
def Test.valueJson : Test → Json
  | .compare _ literal => literal.json
  | .search _ literals => .array (literals.map Scalar.json)

/-- An attribute as a JSON object. -/
def Attribute.json (subject : Attribute) : Json :=
  .object [
    ("scope".toList, (subject.scope.map Json.string).getD .null),
    ("name".toList, .string subject.name)]

/-- An atom as a JSON object. -/
def Atom.json (atom : Atom) : Json :=
  .object [
    ("attribute".toList, atom.subject.json),
    ("operator".toList, .string atom.test.operator.name),
    ("value".toList, atom.test.valueJson)]

end DataCondition
