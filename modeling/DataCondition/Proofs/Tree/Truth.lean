import DataCondition.Proofs.Tree.Erasure

/-!
# The truth of a logic tree

A root and a group hold if one of their children does, a disjunct and a conjunction if all of their
children do.
-/

namespace DataCondition

namespace Node

mutual

/-- Whether a tree holds when `truth` tells the truth of every test. A connective never holds. -/
def holds (truth : Text → Bool) : Node → Bool
  | ⟨_, _, kind, children⟩ =>
    match kind with
    | .atom text => truth text
    | .root | .group => someHolds truth children
    | .disjunct | .conjunction => allHold truth children
    | .connective _ => false

/-- Whether some tree of a row holds. -/
def someHolds (truth : Text → Bool) : List Node → Bool
  | [] => false
  | node :: rest => node.holds truth || someHolds truth rest

/-- Whether all trees of a row hold. -/
def allHold (truth : Text → Bool) : List Node → Bool
  | [] => true
  | node :: rest => node.holds truth && allHold truth rest

end

theorem someHolds_append (truth : Text → Bool) (left right : List Node) :
    someHolds truth (left ++ right) = (someHolds truth left || someHolds truth right) := by
  induction left with
  | nil => simp [someHolds]
  | cons node rest induction => simp [someHolds, induction, Bool.or_assoc]

mutual

/-- The truth of a tree does not hang on its numbers. -/
theorem holds_erased (truth : Text → Bool) : ∀ node : Node,
    node.erased.holds truth = node.holds truth
  | ⟨_, _, kind, children⟩ => by
      cases kind <;>
        simp [erased, bare, holds, someHolds_erasedAll truth children,
          allHold_erasedAll truth children]

theorem someHolds_erasedAll (truth : Text → Bool) : ∀ row : List Node,
    someHolds truth (erasedAll row) = someHolds truth row
  | [] => by simp [someHolds]
  | node :: rest => by
      simp [someHolds, holds_erased truth node, someHolds_erasedAll truth rest]

theorem allHold_erasedAll (truth : Text → Bool) : ∀ row : List Node,
    allHold truth (erasedAll row) = allHold truth row
  | [] => by simp [allHold]
  | node :: rest => by
      simp [allHold, holds_erased truth node, allHold_erasedAll truth rest]

end

end Node

end DataCondition
