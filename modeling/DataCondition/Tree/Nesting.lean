import DataCondition.Tree.Basic
import DataCondition.Tree.Numbering

/-!
# The tree of parentheses

Every token but a closing parenthesis becomes a node, numbered in order; what stands between two
parentheses becomes the children of a group.
-/

namespace DataCondition

namespace Nesting

/-- The deepest nesting of parentheses that is accepted. -/
def limit : Nat := 256

/-- The number of the root of a condition that is more than one test. -/
def rootId : Nat := 0

/-- The position of the first opening parenthesis that has `limit` open ones around it. -/
def tooDeepAt? (depth position : Nat) : List Token → Option Nat
  | [] => none
  | .opening :: rest =>
    if depth < limit then tooDeepAt? (depth + 1) (position + 1) rest else some position
  | .closing :: rest => tooDeepAt? (depth - 1) (position + 1) rest
  | .atom _ :: rest | .connective _ :: rest => tooDeepAt? depth (position + 1) rest

/-- A group that is still open, with the nodes before it in its owner, the last one first. -/
structure Opened where
  id : Nat
  position : Nat
  before : List Node

/-- The number of the innermost open group, or else of the root. -/
def owner : List Opened → Nat
  | [] => rootId
  | group :: _ => group.id

/--
Collects the nodes of the tokens from `position` on. The nodes of the innermost open group are
gathered in `nodes`, the last one first.
-/
def collect (position : Nat) (opened : List Opened) (nodes : List Node) :
    List Token → Numbering (List Node)
  | [] =>
    match opened with
    | [] => pure nodes.reverse
    | group :: _ => throw (.unbalanced .opening group.position)
  | .opening :: rest => do
    let id ← Numbering.fresh
    collect (position + 1) (⟨id, position, nodes⟩ :: opened) [] rest
  | .closing :: rest =>
    match opened with
    | [] => throw (.unbalanced .closing position)
    | group :: outer =>
      let node := ⟨group.id, some (owner outer), .group, nodes.reverse⟩
      collect (position + 1) outer (node :: group.before) rest
  | .atom text :: rest => do
    let id ← Numbering.fresh
    collect (position + 1) opened (⟨id, some (owner opened), .atom text, []⟩ :: nodes) rest
  | .connective link :: rest => do
    let id ← Numbering.fresh
    collect (position + 1) opened (⟨id, some (owner opened), .connective link, []⟩ :: nodes) rest

end Nesting

/-- The tree of parentheses; a lone test is its own tree, anything else stands under a root. -/
def Node.ofTokens : List Token → Numbering Node
  | [] => throw .emptyCondition
  | [.atom text] => do
    let id ← Numbering.fresh
    return ⟨id, none, .atom text, []⟩
  | tokens =>
    match Nesting.tooDeepAt? 0 0 tokens with
    | some position => throw (.tooDeep (Nesting.limit + 1) position Nesting.limit)
    | none => do
      let children ← Nesting.collect 0 [] [] tokens
      return ⟨Nesting.rootId, none, .root, children⟩

end DataCondition
