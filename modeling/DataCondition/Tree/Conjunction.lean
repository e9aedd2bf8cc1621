import DataCondition.Tree.Basic
import DataCondition.Tree.Numbering

/-!
# Gathering conjunctions

The members of a disjunct that `and` joins become one conjunction; a member that stands alone stays
as it is.
-/

namespace DataCondition

namespace Node

/--
Checks that operands and `and` alternate, from an operand to an operand. `left` is the operand read
last, if an `and` is due.
-/
def checkAlternation (left : Option Node) : List Node → Except Error Unit
  | [] => if left.isSome then .ok () else .error (.missingOperand .and)
  | node :: rest =>
    if node.isConnective .and then
      if left.isSome then checkAlternation none rest else .error (.missingOperand .and)
    else
      match left with
      | some operand => .error (.missingConnective operand.label node.label)
      | none => checkAlternation (some node) rest

mutual

/-- The tree with the conjunctions of every disjunct gathered. -/
def gatherConjunctions : Node → Numbering Node
  | ⟨id, parent, kind, children⟩ => do
    if kind = .disjunct then
      checkAlternation none children
      if children.any (isConnective .and) then
        let conjunction ← Numbering.fresh
        let operands ← gatherOperands children
        let gathered := ⟨conjunction, some id, .conjunction, operands.map (under conjunction)⟩
        return ⟨id, parent, kind, [gathered]⟩
      else
        return ⟨id, parent, kind, ← gatherOperands children⟩
    else
      return ⟨id, parent, kind, ← gatherAll children⟩

/-- The operands among the members of a disjunct, each with its own conjunctions gathered. -/
def gatherOperands : List Node → Numbering (List Node)
  | [] => pure []
  | node :: rest =>
    if node.isConnective .and then gatherOperands rest
    else return (← gatherConjunctions node) :: (← gatherOperands rest)

/-- A row of trees, each with its conjunctions gathered. -/
def gatherAll : List Node → Numbering (List Node)
  | [] => pure []
  | node :: rest => return (← gatherConjunctions node) :: (← gatherAll rest)

end

end Node

end DataCondition
