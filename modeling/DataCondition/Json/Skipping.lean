import DataCondition.Json.Lexeme

/-!
# Passing over a JSON value

A reader that has no use for a value still holds it to the grammar. It keeps the brackets that are
open, so values may nest to any depth.
-/

namespace DataCondition

namespace Json

/-- What may come next inside a value that is passed over. -/
inductive Due where
  | value
  | valueOrClosing
  | key
  | keyOrClosing
  | colon
  | commaOrClosing
deriving DecidableEq, Repr

/-- A place inside a value that is passed over. -/
structure Skipping where
  due : Due
  /-- The open brackets, innermost first. -/
  enclosing : List Bracket
deriving DecidableEq, Repr

namespace Skipping

/-- Before the value. -/
def start : Skipping := ⟨.value, []⟩

/-- After a value inside the brackets; the whole value is over if none is open. -/
def afterValue : List Bracket → Option Skipping
  | [] => none
  | enclosing => some ⟨.commaOrClosing, enclosing⟩

/-- After a lexeme that is a value of its own. -/
def afterScalar (enclosing : List Bracket) : Option Fault → Except Fault (Option Skipping)
  | none => .ok (afterValue enclosing)
  | some fault => .error fault

/-- Takes a lexeme where a value is due. -/
def value (enclosing : List Bracket) : Lexeme → Except Fault (Option Skipping)
  | .opening .square => .ok (some ⟨.valueOrClosing, .square :: enclosing⟩)
  | .opening .curly => .ok (some ⟨.keyOrClosing, .curly :: enclosing⟩)
  | .null fault | .truth fault | .number _ fault | .string _ fault => afterScalar enclosing fault
  | .closing _ | .comma | .colon | .stray => .error .malformed

/-- Takes a lexeme where a key is due. -/
def key (enclosing : List Bracket) : Lexeme → Except Fault (Option Skipping)
  | .string _ none => .ok (some ⟨.colon, enclosing⟩)
  | .string _ (some fault) => .error fault
  | _ => .error .malformed

/-- Takes the next lexeme; nothing remains where the value is over. -/
def next (place : Skipping) (lexeme : Lexeme) : Except Fault (Option Skipping) :=
  match place.due, place.enclosing, lexeme with
  | .valueOrClosing, .square :: outer, .closing .square
  | .commaOrClosing, .square :: outer, .closing .square
  | .keyOrClosing, .curly :: outer, .closing .curly
  | .commaOrClosing, .curly :: outer, .closing .curly => .ok (afterValue outer)
  | .commaOrClosing, .square :: outer, .comma => .ok (some ⟨.value, .square :: outer⟩)
  | .commaOrClosing, .curly :: outer, .comma => .ok (some ⟨.key, .curly :: outer⟩)
  | .colon, enclosing, .colon => .ok (some ⟨.value, enclosing⟩)
  | .value, enclosing, _ | .valueOrClosing, enclosing, _ => value enclosing lexeme
  | .key, enclosing, _ | .keyOrClosing, enclosing, _ => key enclosing lexeme
  | _, _, _ => .error .malformed

end Skipping

end Json

end DataCondition
