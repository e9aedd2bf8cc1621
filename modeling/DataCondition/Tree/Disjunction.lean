import DataCondition.Tree.Basic
import DataCondition.Tree.Numbering

/-!
# Gathering disjuncts

The nodes between two `or` become the members of a disjunct. A group that stands alone between them
is dropped, and its own disjuncts take its place.
-/

namespace DataCondition

namespace Node

/-- Whether a run of operands is over: at the end, or before an `or`. -/
def endsRun : List Node → Bool
  | [] => true
  | node :: _ => node.isConnective .or

mutual

/-- The disjuncts of a row of nodes, numbered in order and owned by `owner`. -/
def disjuncts (owner : Nat) : List Node → Numbering (List Node)
  | [] => throw (.missingOperand .or)
  | ⟨id, parent, kind, children⟩ :: rest =>
    if kind = .connective .or then throw (.missingOperand .or)
    else if kind = .group ∧ endsRun rest then
      if children.isEmpty then throw (.emptyGroup id) else do
        let spliced ← disjuncts owner children
        let later ← laterDisjuncts owner rest
        return spliced ++ later
    else do
      let disjunct ← Numbering.fresh
      let first ← member disjunct ⟨id, parent, kind, children⟩
      let (others, later) ← members disjunct owner rest
      return ⟨disjunct, some owner, .disjunct, first :: others⟩ :: later

/-- The disjuncts after a run that is over. -/
def laterDisjuncts (owner : Nat) : List Node → Numbering (List Node)
  | [] => pure []
  | _ :: rest => disjuncts owner rest

/-- The other members of a disjunct, and the disjuncts after it. -/
def members (disjunct owner : Nat) : List Node → Numbering (List Node × List Node)
  | [] => pure ([], [])
  | node :: rest =>
    if node.isConnective .or then do
      let later ← disjuncts owner rest
      return ([], later)
    else do
      let first ← member disjunct node
      let (others, later) ← members disjunct owner rest
      return (first :: others, later)

/-- A member of a disjunct; the inside of a group is gathered in its turn. -/
def member (disjunct : Nat) : Node → Numbering Node
  | ⟨id, parent, kind, children⟩ =>
    if kind = .group then
      if children.isEmpty then throw (.emptyGroup id) else do
        let gathered ← disjuncts id children
        return ⟨id, some disjunct, .group, gathered⟩
    else
      return Node.under disjunct ⟨id, parent, kind, children⟩

end

/-- The tree with the disjuncts of its top gathered; a lone test stays as it is. -/
def gatherDisjuncts (node : Node) : Numbering Node :=
  if node.isAtom then pure node
  else if node.isLeaf then throw (.emptyGroup node.id)
  else do
    let children ← disjuncts node.id node.children
    return { node with children }

end Node

end DataCondition
