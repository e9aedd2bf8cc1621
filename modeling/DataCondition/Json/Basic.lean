import DataCondition.Numeral.Layout

/-!
# JSON documents and their compact text

A document is a tree of values. Its compact text holds no blanks between the parts and keeps the
members of an object in their order.
-/

namespace DataCondition

/-- A JSON value; the members of an object keep their order. -/
inductive Json where
  | null
  | boolean (value : Bool)
  | integer (value : Int)
  | real (value : Float)
  | string (value : Text)
  | array (items : List Json)
  | object (members : List (Text × Json))

namespace Json

/-- The lower-case hexadecimal digits of a control character, after `\u00`. -/
def controlDigits (code : Nat) : Text :=
  [Nat.digitChar (code / 16), Nat.digitChar (code % 16)]

/-- A character inside a string: quote, backslash and control characters are escaped. -/
def escape (char : Char) : Text :=
  match char.toNat with
  | 0x22 => ['\\', '"']
  | 0x5C => ['\\', '\\']
  | 0x08 => ['\\', 'b']
  | 0x09 => ['\\', 't']
  | 0x0A => ['\\', 'n']
  | 0x0C => ['\\', 'f']
  | 0x0D => ['\\', 'r']
  | code => if code < 0x20 then ['\\', 'u', '0', '0'] ++ controlDigits code else [char]

/-- A string between quotes. -/
def quoted (value : Text) : Text :=
  '"' :: value.flatMap escape ++ ['"']

/-- A double, in the document layout; infinities have no JSON number and become `null`. -/
def realText (value : Float) : Text :=
  if value.isFinite then Numeral.Layout.document.text value else ['n', 'u', 'l', 'l']

mutual

/-- The compact text of a value. -/
def toText : Json → Text
  | .null => ['n', 'u', 'l', 'l']
  | .boolean true => ['t', 'r', 'u', 'e']
  | .boolean false => ['f', 'a', 'l', 's', 'e']
  | .integer value => Numeral.ofInt value
  | .real value => realText value
  | .string value => quoted value
  | .array items => '[' :: itemsText items ++ [']']
  | .object members => '\x7b' :: membersText members ++ ['\x7d']

/-- Values with commas between them. -/
def itemsText : List Json → Text
  | [] => []
  | [value] => value.toText
  | value :: next :: rest => value.toText ++ ',' :: itemsText (next :: rest)

/-- Members, each a quoted name, a colon and a value, with commas between them. -/
def membersText : List (Text × Json) → Text
  | [] => []
  | [(name, value)] => quoted name ++ ':' :: value.toText
  | (name, value) :: next :: rest =>
    quoted name ++ ':' :: value.toText ++ ',' :: membersText (next :: rest)

end

end Json

end DataCondition
