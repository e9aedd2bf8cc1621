import DataCondition.Json.Number
import DataCondition.Json.Quoted

/-!
# The lexemes of a JSON text

A text is cut into brackets, commas, colons, names, numbers and strings. What is wrong inside a
lexeme is kept with it, because a reader that cannot use the lexeme at all refuses it without
looking inside. Where a reader that needs the value and one that passes over it judge differently,
both verdicts are kept.
-/

namespace DataCondition

namespace Json

/-- The two kinds of brackets. -/
inductive Bracket where
  | square
  | curly
deriving DecidableEq, Repr

/-- The smallest part of a JSON text, with what is wrong inside it. -/
inductive Lexeme where
  | opening (bracket : Bracket)
  | closing (bracket : Bracket)
  | comma
  | colon
  /-- The name `null`. -/
  | null (fault : Option Fault)
  /-- The name `true` or `false`. -/
  | truth (fault : Option Fault)
  /-- A number; `skipped` is the verdict of a reader that passes over it. -/
  | number (fault skipped : Option Fault)
  /-- A string; `skipped` is the verdict of a reader that passes over it. -/
  | string (content : Except Fault Text) (skipped : Option Fault)
  /-- A character that starts no lexeme. -/
  | stray

namespace Lexeme

/-- The blanks of JSON. -/
def isBlank (char : Char) : Bool :=
  char = ' ' || char = '\t' || char = '\n' || char = '\r'

/-- Reads the letters of a name; the text after it counts only if all of them are there. -/
def spell : Text → Text → Option Fault × Text
  | [], text => (none, text)
  | _ :: _, [] => (some .truncated, [])
  | letter :: letters, char :: rest =>
    if letter = char then spell letters rest else (some .malformed, [])

/-- A number that is passed over is never called truncated or too large. -/
def ofNumber (text : Text) : Lexeme × Text :=
  match Number.read text with
  | .ok (value, rest) => (.number (if value.isOversized then some .malformed else none) none, rest)
  | .error fault => (.number (some fault) (some .malformed), [])

/-- A string after its opening quote. -/
def ofString (text : Text) : Lexeme × Text :=
  let scan := Quoted.scan [] text
  (.string scan.content scan.fault, scan.rest)

/-- The lexeme that starts with `char`, and the text after it. -/
def read (char : Char) (rest : Text) : Lexeme × Text :=
  match char with
  | '[' => (.opening .square, rest)
  | ']' => (.closing .square, rest)
  | '\x7b' => (.opening .curly, rest)
  | '\x7d' => (.closing .curly, rest)
  | ',' => (.comma, rest)
  | ':' => (.colon, rest)
  | 'n' => ((spell ['u', 'l', 'l'] rest).map .null id)
  | 't' => ((spell ['r', 'u', 'e'] rest).map .truth id)
  | 'f' => ((spell ['a', 'l', 's', 'e'] rest).map .truth id)
  | '"' => ofString rest
  | _ => if char = '-' || char.isDigit then ofNumber (char :: rest) else (.stray, rest)

theorem length_spell_le (letters text : Text) : (spell letters text).2.length ≤ text.length := by
  fun_induction spell letters text <;> (simp_all; try omega)

theorem length_ofNumber_le (char : Char) (rest : Text) :
    (ofNumber (char :: rest)).2.length ≤ rest.length := by
  unfold ofNumber
  split
  next found => exact Nat.le_of_lt_succ (Number.length_of_read found)
  next => simp

/-- A lexeme takes its first character and perhaps more. -/
theorem length_read_le (char : Char) (rest : Text) : (read char rest).2.length ≤ rest.length := by
  unfold read
  split
  case h_10 => exact Quoted.length_scan_le [] rest
  case h_11 =>
    split
    · exact length_ofNumber_le char rest
    · exact Nat.le_refl _
  all_goals first
    | exact Nat.le_refl _
    | exact length_spell_le _ _

end Lexeme

/-- The lexemes of a text, in order. -/
def lexemes : Text → List Lexeme
  | [] => []
  | char :: rest =>
    if Lexeme.isBlank char then lexemes rest
    else
      let next := Lexeme.read char rest
      next.1 :: lexemes next.2
termination_by text => text.length
decreasing_by
  · exact Nat.lt_succ_self _
  · exact Nat.lt_succ_of_le (Lexeme.length_read_le char rest)

end Json

end DataCondition
