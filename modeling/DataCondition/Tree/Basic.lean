import DataCondition.Token.Basic

/-!
# Trees of conditions

A node has a number, the number of its owner, a kind and children. Size, height, atoms and the
left-to-right order are read off the tree by recursion.
-/

namespace DataCondition

/-- What a node stands for. -/
inductive Node.Kind where
  /-- The whole of a condition that is more than one test. -/
  | root
  /-- A test, by its text. -/
  | atom (text : Text)
  /-- What stands between two parentheses. -/
  | group
  /-- One alternative of its owner. -/
  | disjunct
  /-- Tests and groups that must hold together. -/
  | conjunction
  /-- A connective that has not been gathered yet. -/
  | connective (link : Connective)
deriving DecidableEq, Repr

/-- How a node is labelled: disjuncts and connectives have words, groups their parenthesis. -/
def Node.Kind.label : Node.Kind → Text
  | .root => []
  | .atom text => text
  | .group => ['(']
  | .disjunct => ['O', 'R']
  | .conjunction => ['a', 'n', 'd']
  | .connective link => link.word

/-- A node with all that is below it. -/
structure Node where
  id : Nat
  /-- The number of the owner. -/
  parent : Option Nat
  kind : Node.Kind
  children : List Node

namespace Node

mutual

/-- Equality of trees is decided part by part. -/
def decideEq : (left right : Node) → Decidable (left = right)
  | ⟨id, parent, kind, children⟩, ⟨id', parent', kind', children'⟩ =>
    match decEq id id', decEq parent parent', decEq kind kind',
      decideEqAll children children' with
    | .isTrue rfl, .isTrue rfl, .isTrue rfl, .isTrue rfl => .isTrue rfl
    | .isFalse different, _, _, _ => .isFalse fun same => different (congrArg Node.id same)
    | _, .isFalse different, _, _ => .isFalse fun same => different (congrArg Node.parent same)
    | _, _, .isFalse different, _ => .isFalse fun same => different (congrArg Node.kind same)
    | _, _, _, .isFalse different => .isFalse fun same => different (congrArg Node.children same)

/-- Equality of rows of trees is decided tree by tree. -/
def decideEqAll : (left right : List Node) → Decidable (left = right)
  | [], [] => .isTrue rfl
  | [], _ :: _ => .isFalse nofun
  | _ :: _, [] => .isFalse nofun
  | node :: nodes, node' :: nodes' =>
    match decideEq node node', decideEqAll nodes nodes' with
    | .isTrue rfl, .isTrue rfl => .isTrue rfl
    | .isFalse different, _ => .isFalse fun same => different (List.cons.inj same).1
    | _, .isFalse different => .isFalse fun same => different (List.cons.inj same).2

end

instance : DecidableEq Node := decideEq

/-- The label of the node. -/
def label (node : Node) : Text := node.kind.label

/-- Whether no node owns this one. -/
def isRoot (node : Node) : Bool := node.parent.isNone

/-- Whether nothing is below the node. -/
def isLeaf (node : Node) : Bool := node.children.isEmpty

/-- The text of the test that the node is. -/
def atom? (node : Node) : Option Text :=
  match node.kind with
  | .atom text => some text
  | _ => none

/-- Whether the node is a test. -/
def isAtom (node : Node) : Bool := node.atom?.isSome

/-- Whether the node is this connective. -/
def isConnective (link : Connective) (node : Node) : Bool := node.kind = .connective link

/-- The same node under another owner. -/
def under (owner : Nat) (node : Node) : Node := { node with parent := some owner }

mutual

/-- How many nodes are below this one. -/
def size : Node → Nat
  | ⟨_, _, _, children⟩ => sizeAll children

/-- How many nodes a row of trees has. -/
def sizeAll : List Node → Nat
  | [] => 0
  | node :: rest => 1 + node.size + sizeAll rest

end

mutual

/-- How many edges the longest way down has. -/
def height : Node → Nat
  | ⟨_, _, _, children⟩ => heightAll children

/-- The height of a node over this row of trees. -/
def heightAll : List Node → Nat
  | [] => 0
  | node :: rest => max (1 + node.height) (heightAll rest)

end

mutual

/-- The node and all nodes below it, from left to right and owners first, with their depths. -/
def preorder (depth : Nat) : Node → List (Nat × Node)
  | ⟨id, parent, kind, children⟩ =>
    (depth, ⟨id, parent, kind, children⟩) :: preorderAll (depth + 1) children

/-- The nodes of a row of trees, from left to right and owners first, with their depths. -/
def preorderAll (depth : Nat) : List Node → List (Nat × Node)
  | [] => []
  | node :: rest => preorder depth node ++ preorderAll depth rest

end

theorem preorderAll_eq (depth : Nat) (row : List Node) :
    preorderAll depth row = row.flatMap (preorder depth) := by
  induction row with
  | nil => rfl
  | cons node rest induction => rw [preorderAll, induction, List.flatMap_cons]

theorem preorder_eq (depth : Nat) (node : Node) :
    node.preorder depth = (depth, node) :: node.children.flatMap (preorder (depth + 1)) := by
  obtain ⟨id, parent, kind, children⟩ := node
  rw [preorder, preorderAll_eq]

/-- The texts of all tests in the tree, from left to right. -/
def atoms (node : Node) : List Text :=
  (node.preorder 0).filterMap fun (_, part) => part.atom?

end Node

end DataCondition
