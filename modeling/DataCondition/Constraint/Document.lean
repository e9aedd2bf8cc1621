import DataCondition.Constraint.Basic
import DataCondition.Json.Skipping

/-!
# Constraints in JSON documents

A document is an array of constraints. A constraint is an object with named members, or an array of
the same values in their fixed order. The text is read once from left to right, and the first
problem decides how it is refused.
-/

namespace DataCondition

namespace Constraint

/-- The parts of a constraint. -/
inductive Field where
  | template
  | activities
  | activation
  | correlation
  | time
deriving DecidableEq, Repr

namespace Field

/-- The part that a member of an object is, if it is one. -/
def ofName? (name : Text) : Option Field :=
  if name = "template".toList then some .template
  else if name = "activities".toList then some .activities
  else if name = "activation".toList then some .activation
  else if name = "correlation".toList then some .correlation
  else if name = "time".toList then some .time
  else none

/-- The part that follows in the fixed order. -/
def next? : Field → Option Field
  | .template => some .activities
  | .activities => some .activation
  | .activation => some .correlation
  | .correlation => some .time
  | .time => none

end Field

/-- The parts of a constraint that have been read. A condition may have been read as absent. -/
structure Draft where
  template : Option Text
  activities : Option (List Text)
  activation : Option (Option Text)
  correlation : Option (Option Text)
  time : Option (Option Text)

namespace Draft

/-- The draft of which nothing has been read. -/
def blank : Draft := ⟨none, none, none, none, none⟩

/-- Whether a part has been read. -/
def has (draft : Draft) : Field → Bool
  | .template => draft.template.isSome
  | .activities => draft.activities.isSome
  | .activation => draft.activation.isSome
  | .correlation => draft.correlation.isSome
  | .time => draft.time.isSome

/-- The constraint of a draft that is over; only the template must have been read. -/
def finish? (draft : Draft) : Option Constraint := do
  let template ← draft.template
  return ⟨template, draft.activities.getD [], draft.activation.getD none,
    draft.correlation.getD none, draft.time.getD none⟩

end Draft

/-- Where a reader stands in a row that commas separate. -/
inductive Slot where
  /-- Before the first item, or the end of an empty row. -/
  | first
  /-- After an item: before a comma or the end. -/
  | after
  /-- After a comma: before an item. -/
  | item
deriving DecidableEq, Repr

/-- How a constraint is written. -/
inductive Form where
  /-- As an object. -/
  | named
  /-- As an array, at the part that is due; none is due after the last one. -/
  | positional (due : Option Field)
deriving DecidableEq, Repr

/-- Where a reader stands in a document. -/
inductive Place where
  | start
  /-- In the array of constraints. -/
  | constraint (slot : Slot)
  /-- In a constraint, between two parts. -/
  | part (slot : Slot) (form : Form) (draft : Draft)
  /-- After the name of a part; no part has a name that is not known. -/
  | colon (field : Option Field) (draft : Draft)
  /-- Before the value of a named part. -/
  | named (field : Field) (draft : Draft)
  /-- In the array of activities; `items` are those read, the last one first. -/
  | activity (slot : Slot) (items : List Text) (form : Form) (draft : Draft)
  /-- In a value that is passed over. -/
  | skipped (place : Json.Skipping) (draft : Draft)
  | done

/-- The constraints that have been read, the last one first, and the place of the reader. -/
structure Reader where
  read : List Constraint
  place : Place

namespace Reader

/-- How a value is refused that is not of the type that is due; its own faults come first. -/
def mismatch : Json.Lexeme → Json.Fault
  | .opening _ => .mistyped
  | .null fault | .truth fault | .number fault _ => fault.getD .mistyped
  | .string (.ok _) _ => .mistyped
  | .string (.error fault) _ => fault
  | .closing _ | .comma | .colon | .stray => .malformed

/-- A text. -/
def text : Json.Lexeme → Except Json.Fault Text
  | .string content _ => content
  | lexeme => .error (mismatch lexeme)

/-- A text, or `null` for none. -/
def optionalText : Json.Lexeme → Except Json.Fault (Option Text)
  | .null none => .ok none
  | lexeme => (text lexeme).map some

/-- The place after a part has been read into the draft. -/
def afterPart (form : Form) (draft : Draft) : Place :=
  .part .after form draft

/-- Takes the value of a part. -/
def value (field : Field) (form : Form) (draft : Draft) (lexeme : Json.Lexeme) :
    Except Json.Fault Place :=
  match field with
  | .template => do
    return afterPart form { draft with template := some (← text lexeme) }
  | .activities =>
    match lexeme with
    | .opening .square => .ok (.activity .first [] form draft)
    | _ => .error (mismatch lexeme)
  | .activation => do
    return afterPart form { draft with activation := some (← optionalText lexeme) }
  | .correlation => do
    return afterPart form { draft with correlation := some (← optionalText lexeme) }
  | .time => do
    return afterPart form { draft with time := some (← optionalText lexeme) }

/-- Takes the name of a part; a part that has been read may not come again. -/
def name (draft : Draft) : Json.Lexeme → Except Json.Fault Place
  | .string content _ => do
    let field := Field.ofName? (← content)
    if field.any draft.has then .error .mistyped else .ok (.colon field draft)
  | _ => .error .malformed

/-- Takes the part that is due in a constraint; after the last one there is none. -/
def part (form : Form) (draft : Draft) (lexeme : Json.Lexeme) : Except Json.Fault Place :=
  match form with
  | .named => name draft lexeme
  | .positional none => .error .malformed
  | .positional (some field) => value field (.positional field.next?) draft lexeme

/-- The bracket that ends a constraint. -/
def Form.bracket : Form → Json.Bracket
  | .named => .curly
  | .positional _ => .square

/-- Takes the next lexeme where a constraint is due. -/
def constraint : Json.Lexeme → Except Json.Fault Place
  | .opening .curly => .ok (.part .first .named .blank)
  | .opening .square => .ok (.part .first (.positional (some .template)) .blank)
  | lexeme => .error (mismatch lexeme)

/-- Whether a comma may stand here: after an item that others may follow. -/
def isComma (slot : Slot) (lexeme : Json.Lexeme) : Bool :=
  match slot, lexeme with
  | .after, .comma => true
  | _, _ => false

/-- Whether this lexeme ends a row with such a bracket; it may not stand after a comma. -/
def isEnd (slot : Slot) (bracket : Json.Bracket) (lexeme : Json.Lexeme) : Bool :=
  match slot, lexeme with
  | .item, _ => false
  | _, .closing found => found = bracket
  | _, _ => false

/-- Takes the next lexeme. -/
def next (reader : Reader) (lexeme : Json.Lexeme) : Except Json.Fault Reader :=
  let move (place : Place) : Except Json.Fault Reader := .ok { reader with place }
  match reader.place with
  | .start =>
    match lexeme with
    | .opening .square => move (.constraint .first)
    | _ => .error (mismatch lexeme)
  | .constraint slot =>
    if isEnd slot .square lexeme then move .done
    else if isComma slot lexeme then move (.constraint .item)
    else if slot = .after then .error .malformed
    else constraint lexeme >>= move
  | .part slot form draft =>
    if isEnd slot (Form.bracket form) lexeme then
      match draft.finish? with
      | some read => .ok ⟨read :: reader.read, .constraint .after⟩
      | none => .error .mistyped
    else if isComma slot lexeme && form ≠ .positional none then move (.part .item form draft)
    else if slot = .after then .error .malformed
    else part form draft lexeme >>= move
  | .colon field draft =>
    match lexeme, field with
    | .colon, some field => move (.named field draft)
    | .colon, none => move (.skipped .start draft)
    | _, _ => .error .malformed
  | .named field draft => value field .named draft lexeme >>= move
  | .activity slot items form draft =>
    if isEnd slot .square lexeme then
      move (afterPart form { draft with activities := some items.reverse })
    else if isComma slot lexeme then move (.activity .item items form draft)
    else if slot = .after then .error .malformed
    else do
      let item ← text lexeme
      move (.activity .after (item :: items) form draft)
  | .skipped place draft => do
    match ← place.next lexeme with
    | some place => move (.skipped place draft)
    | none => move (afterPart .named draft)
  | .done => .error .malformed

/-- The constraints that were read; a document that is not over has been cut short. -/
def finish (reader : Reader) : Except Json.Fault (List Constraint) :=
  match reader.place with
  | .done => .ok reader.read.reverse
  | _ => .error .truncated

end Reader

/-- Reads an array of constraints from a JSON text. -/
def listOfJson (text : Text) : Except Error (List Constraint) :=
  let read := (Json.lexemes text).foldlM Reader.next ⟨[], .start⟩ >>= Reader.finish
  read.mapError .invalidJson

end Constraint

end DataCondition
