import DataCondition.Atom.Reading
import DataCondition.Token.Reading
import DataCondition.Tree.Conjunction
import DataCondition.Tree.Disjunction
import DataCondition.Tree.Nesting

/-!
# From a condition to its tree

The tokens of a condition become a tree of parentheses, in which first disjuncts and then
conjunctions are gathered. Every test is decoded beforehand, so that a tree holds only tests that
mean something.
-/

namespace DataCondition

namespace Token

/-- The text of the test that a token is. -/
def atom? : Token → Option Text
  | .atom text => some text
  | _ => none

end Token

namespace Node

/-- The logic tree of tokens. -/
def logicTree (tokens : List Token) : Numbering Node := do
  let nested ← ofTokens tokens
  let disjoined ← gatherDisjuncts nested
  gatherConjunctions disjoined

/-- The decoded tests of a tree, from left to right. -/
def readAtoms (node : Node) : Except Error (List Atom) :=
  Atom.ofTexts node.atoms

end Node

namespace Condition

/-- The number that the first node of a condition gets. -/
def firstId : UInt32 := 1

/-- The logic tree of a condition, whose tests all decode. -/
def tree (condition : Text) : Except Error Node := do
  let tokens ← tokens condition
  let _ ← Atom.ofTexts (tokens.filterMap Token.atom?)
  let (node, _) ← (Node.logicTree tokens).run firstId
  return node

end Condition

end DataCondition
