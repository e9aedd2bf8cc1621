import DataCondition.Proofs.Grammar.Basic
import DataCondition.Proofs.Tree.Nesting

/-!
# The trees of a derivation

A derivation tells which tree its tokens have after every stage: the tree of parentheses, the tree
with its disjuncts gathered, and the logic tree. The numbers of the nodes are left out.
-/

namespace DataCondition

namespace Grammar

/-- A test without number and owner. -/
def testNode (text : Text) : Node := .bare (.atom text) []

/-- A connective without number and owner. -/
def linkNode (link : Connective) : Node := .bare (.connective link) []

mutual

/-- A disjunction in the tree of parentheses. -/
def Disjunction.nested : Disjunction → List Node
  | .last conjunction => conjunction.nested
  | .or first later => first.nested ++ linkNode .or :: later.nested

/-- A conjunction in the tree of parentheses. -/
def Conjunction.nested : Conjunction → List Node
  | .last term => [term.nested]
  | .and first later => first.nested :: linkNode .and :: later.nested

/-- A term in the tree of parentheses. -/
def Term.nested : Term → Node
  | .test text => testNode text
  | .group inner => .bare .group inner.nested

end

mutual

/-- The disjuncts of a disjunction. -/
def Disjunction.disjuncts : Disjunction → List Node
  | .last conjunction => conjunction.disjuncts
  | .or first later => first.disjuncts ++ later.disjuncts

/-- The disjuncts that a conjunction becomes: a lone group gives its own, all else is one. -/
def Conjunction.disjuncts : Conjunction → List Node
  | .last (.test text) => [.bare .disjunct [testNode text]]
  | .last (.group inner) => inner.disjuncts
  | .and first later => [.bare .disjunct (first.member :: linkNode .and :: later.members)]

/-- The members of a disjunct, with the connectives between them. -/
def Conjunction.members : Conjunction → List Node
  | .last term => [term.member]
  | .and first later => first.member :: linkNode .and :: later.members

/-- A term as the member of a disjunct. -/
def Term.member : Term → Node
  | .test text => testNode text
  | .group inner => .bare .group inner.disjuncts

end

mutual

/-- The disjuncts of a disjunction, with their conjunctions gathered. -/
def Disjunction.alternatives : Disjunction → List Node
  | .last conjunction => conjunction.alternatives
  | .or first later => first.alternatives ++ later.alternatives

/-- The disjuncts that a conjunction becomes, with their conjunctions gathered. -/
def Conjunction.alternatives : Conjunction → List Node
  | .last (.test text) => [.bare .disjunct [testNode text]]
  | .last (.group inner) => inner.alternatives
  | .and first later => [.bare .disjunct [.bare .conjunction (first.operand :: later.operands)]]

/-- The operands of a conjunction. -/
def Conjunction.operands : Conjunction → List Node
  | .last term => [term.operand]
  | .and first later => first.operand :: later.operands

/-- A term as the operand of a conjunction. -/
def Term.operand : Term → Node
  | .test text => testNode text
  | .group inner => .bare .group inner.alternatives

end

/-- The logic tree of a disjunction; a lone test is its own tree. -/
def Disjunction.tree : Disjunction → Node
  | .last (.last (.test text)) => testNode text
  | disjunction => .bare .root disjunction.alternatives

end Grammar

end DataCondition
