import DataCondition.Json.Basic
import DataCondition.Tree.Basic

/-!
# Trees as text

A tree is rendered as one line for each node, and written as a JSON document that nests as the tree
does.
-/

namespace DataCondition

/-- The word that a JSON document uses for a kind of node. -/
def Node.Kind.tag : Node.Kind → Text
  | .root => "root".toList
  | .atom _ => "atom".toList
  | .group => "paren".toList
  | .disjunct => "or".toList
  | .conjunction => "and".toList
  | .connective _ => "connective".toList

/-- A kind as a JSON object: its word, and the text of tests and connectives. -/
def Node.Kind.json (kind : Node.Kind) : Json :=
  let tag := ("kind".toList, Json.string kind.tag)
  let withText (text : Text) := Json.object [tag, ("text".toList, .string text)]
  match kind with
  | .atom text => withText text
  | .connective link => withText link.word
  | _ => .object [tag]

namespace Node

/-- A line shows the depth by dashes, then the number, the number of the owner and the label. -/
def line (depth : Nat) (node : Node) : Text :=
  let owner := match node.parent with
    | none => ['-']
    | some parent => Numeral.ofNat parent
  List.replicate (depth + 1) '-' ++ ">(ID=\"".toList ++ Numeral.ofNat node.id ++
    "\", parentId=\"".toList ++ owner ++ "\", value:\"".toList ++ node.label ++ "\")\n".toList

/-- The lines of the node and of all nodes below it, from left to right and owners first. -/
def render (node : Node) : Text :=
  (node.preorder 0).flatMap fun (depth, part) => part.line depth

mutual

/-- A node as a JSON object. -/
def json : Node → Json
  | ⟨id, parent, kind, children⟩ =>
    .object [
      ("id".toList, .integer id),
      ("parent".toList, (parent.map fun owner => Json.integer owner).getD .null),
      ("kind".toList, kind.json),
      ("children".toList, .array (jsonAll children))]

/-- A row of nodes as JSON values. -/
def jsonAll : List Node → List Json
  | [] => []
  | node :: rest => node.json :: jsonAll rest

end

end Node

end DataCondition
