import DataCondition.Atom.Basic
import DataCondition.Error
import DataCondition.Numeral.Decimal
import DataCondition.Text.Cut

/-!
# Reading atoms

A text that holds a membership word between spaces is a membership test; any other is cut at its
first comparison symbol.
-/

namespace DataCondition

/-- An attribute is cut at its first dot, if there is one. -/
def Attribute.ofText (text : Text) : Attribute :=
  match Text.cut ['.'] text with
  | some (scope, name) => ⟨some scope, name⟩
  | none => ⟨none, text⟩

/--
A literal is a whole number of 64 bits if it can be, else a decimal number, else a truth value in
letters of any case, else a text. Without a digit nothing is a number.
-/
def Scalar.ofText (text : Text) : Scalar :=
  let text := Text.trim text
  let lower := text.map Char.toLower
  match Numeral.int64? text, Numeral.Decimal.ofText? text with
  | some value, _ => .integer value
  | none, some value => .real value.toFloat
  | none, none =>
    if lower = "true".toList then .boolean true
    else if lower = "false".toList then .boolean false
    else .text text

namespace Atom

/-- The attribute before an operator must not be blank. -/
def subject? (left text : Text) : Except Error Attribute :=
  match Text.nonBlank? left with
  | some name => .ok (Attribute.ofText name)
  | none => .error (.invalidAtom .missingAttribute text)

/-- The literals between two parentheses, with commas between them. -/
def literals (inner : Text) : List Scalar :=
  if (Text.nonBlank? inner).isNone then [] else (inner.splitOn ',').map Scalar.ofText

/-- A membership test, cut into what is left of its word and the list on the right. -/
def ofMembership (operator : Membership) (left list text : Text) : Except Error Atom :=
  match Text.between? '(' ')' (Text.trim list) with
  | none => .error (.invalidAtom .unparenthesisedList text)
  | some inner => do
    let subject ← subject? left text
    return ⟨subject, .search operator (literals inner)⟩

/-- Whether a comparison symbol can start with this character. -/
def startsSymbol (char : Char) : Bool :=
  char = '>' || char = '<' || char = '=' || char = '!'

/-- A comparison is cut where the first character stands that a symbol can start with. -/
def ofComparison (text : Text) : Except Error Atom :=
  let left := text.takeWhile fun char => !startsSymbol char
  match text.dropWhile fun char => !startsSymbol char with
  | [] => .error (.invalidAtom .noOperator text)
  | found =>
    match Comparison.read? found with
    | none => .error (.invalidAtom .unknownOperator text)
    | some (operator, rest) =>
      match Text.nonBlank? rest with
      | none => .error (.invalidAtom .missingValue text)
      | some literal => do
        let subject ← subject? left text
        return ⟨subject, .compare operator (Scalar.ofText literal)⟩

/-- A membership word between two spaces. -/
def spaced (operator : Membership) : Text := ' ' :: operator.word ++ [' ']

/-- Reads the text of an atom; the negated membership word is looked for first. -/
def ofText (text : Text) : Except Error Atom :=
  match Text.cut (spaced .notMember) text with
  | some (left, list) => ofMembership .notMember left list text
  | none =>
    match Text.cut (spaced .member) text with
    | some (left, list) => ofMembership .member left list text
    | none => ofComparison text

/-- Reads texts in order, up to the first that fails. -/
def ofTexts (texts : List Text) : Except Error (List Atom) :=
  texts.mapM ofText

end Atom

end DataCondition
