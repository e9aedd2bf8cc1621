import DataCondition.Proofs.Tree.Conjunction
import DataCondition.Proofs.Tree.Numbers

/-!
# Numbers while conjunctions are gathered

Conjunctions are numbered in the order in which they stand in the result, owners first. All other
nodes that stay keep their numbers.
-/

namespace DataCondition

namespace Node

open DataCondition.Numbering (Drawn)

/-- The trees that come from gathering conjunctions in `row` while the counter goes on. -/
structure Conjoined (owner : Nat) (next after : UInt32) (row gathered : List Node) : Prop where
  numbers : Drawn next after (numbersOf .conjunction gathered)
  disjuncts : numbersOf .disjunct gathered = numbersOf .disjunct row
  sources : sources gathered = sources row
  owned : AreOwned owner row → AreOwned owner gathered

namespace Conjoined

variable {owner : Nat} {next middle after : UInt32} {node : Node}

theorem nil (owner : Nat) (next : UInt32) : Conjoined owner next next [] [] where
  numbers := .nil next
  disjuncts := rfl
  sources := rfl
  owned owned := owned

theorem append {left left' right right' : List Node}
    (first : Conjoined owner next middle left left')
    (second : Conjoined owner middle after right right') :
    Conjoined owner next after (left ++ right) (left' ++ right') where
  numbers := by
    rw [numbersOf_append]
    exact first.numbers.append second.numbers
  disjuncts := by
    rw [numbersOf_append, first.disjuncts, second.disjuncts, numbersOf_append]
  sources := by
    rw [sources_append, first.sources, second.sources, sources_append]
  owned owned := by
    rw [areOwned_append] at owned ⊢
    exact ⟨first.owned owned.1, second.owned owned.2⟩

/-- A connective that owns nothing may be left out. -/
theorem drop {rest gathered : List Node} {link : Connective}
    (isLink : node.kind = .connective link) (alone : node.children = [])
    (later : Conjoined owner next after rest gathered) :
    Conjoined owner next after (node :: rest) gathered where
  numbers := later.numbers
  disjuncts := by simpa [numberOf?, isLink, alone] using later.disjuncts
  sources := by simpa [source?, isLink, alone] using later.sources
  owned owned := later.owned (areOwned_cons.mp owned).2.2

/-- Conjunctions may be gathered below a node. -/
theorem below {gathered : List Node} (other : node.kind ≠ .conjunction)
    (inside : Conjoined node.id next after node.children gathered) :
    Conjoined owner next after [node] [{ node with children := gathered }] where
  numbers := by
    have drawn := inside.numbers
    simpa [numberOf?, other] using drawn
  disjuncts := by simp [numberOf?, inside.disjuncts]
  sources := by simp [source?, inside.sources]
  owned owned := by
    rw [areOwned_cons] at owned ⊢
    exact ⟨owned.1, inside.owned owned.2.1, areOwned_nil owner⟩

/-- The operands of an owner become a conjunction, whose number was drawn before them. -/
theorem joined {row operands : List Node} (inside : Conjoined owner (next + 1) after row operands) :
    Conjoined owner next after row
      [⟨next, some owner, .conjunction, operands.map (under next)⟩] where
  numbers := by
    have drawn := Drawn.cons inside.numbers
    simpa [numberOf?] using drawn
  disjuncts := by simp [numberOf?, inside.disjuncts]
  sources := by simp [source?, inside.sources]
  owned owned :=
    areOwned_cons.mpr ⟨rfl, (inside.owned owned).map_under next, areOwned_nil owner⟩

end Conjoined

mutual

/-- Gathering the conjunctions of a tree numbers them in order and keeps all that is no `and`. -/
theorem conjoined_of_gatherConjunctions : ∀ (node : Node) {owner : Nat} {next after : UInt32}
    {gathered : Node}, node.IsOpen → (∀ part ∈ node.children.flatMap nodes, part.IsOpen) →
    gatherConjunctions node next = .ok (gathered, after) →
    Conjoined owner next after [node] [gathered]
  | ⟨id, parent, kind, children⟩, owner, next, after, gathered, here, inside, run => by
      have other := here.1
      rcases gatherConjunctions_eq_ok.mp run with
        ⟨-, -, -, operands, operands_run, rfl⟩ | ⟨-, -, -, operands, operands_run, rfl⟩ |
        ⟨-, operands, operands_run, rfl⟩
      · exact .below other (conjoined_of_gatherOperands children inside operands_run).joined
      · exact .below other (conjoined_of_gatherOperands children inside operands_run)
      · exact .below other (conjoined_of_gatherAll children inside operands_run)
termination_by structural node => node

theorem conjoined_of_gatherOperands : ∀ (row : List Node) {owner : Nat} {next after : UInt32}
    {gathered : List Node}, (∀ part ∈ row.flatMap nodes, part.IsOpen) →
    gatherOperands row next = .ok (gathered, after) → Conjoined owner next after row gathered
  | [], owner, next, _, _, _, run => by
      obtain ⟨rfl, rfl⟩ := by simpa using run
      exact .nil owner next
  | node :: rest, owner, next, after, gathered, inside, run => by
      obtain ⟨here, below, later⟩ := open_cons.mp inside
      by_cases isAnd : node.isConnective .and
      · have isLink : node.kind = .connective .and := by simpa [isConnective] using isAnd
        rw [gatherOperands_separator isAnd] at run
        exact (conjoined_of_gatherOperands rest later run).drop isLink (here.2 .and isLink)
      · obtain ⟨first, others, middle, first_run, others_run, rfl⟩ :=
          (gatherOperands_cons_eq_ok (by simpa using isAnd)).mp run
        have front : Conjoined owner next middle [node] [first] :=
          conjoined_of_gatherConjunctions node here below first_run
        exact front.append (conjoined_of_gatherOperands rest later others_run)
termination_by structural row => row

theorem conjoined_of_gatherAll : ∀ (row : List Node) {owner : Nat} {next after : UInt32}
    {gathered : List Node}, (∀ part ∈ row.flatMap nodes, part.IsOpen) →
    gatherAll row next = .ok (gathered, after) → Conjoined owner next after row gathered
  | [], owner, next, _, _, _, run => by
      obtain ⟨rfl, rfl⟩ := by simpa using run
      exact .nil owner next
  | node :: rest, owner, next, after, gathered, inside, run => by
      obtain ⟨here, below, later⟩ := open_cons.mp inside
      obtain ⟨first, others, middle, first_run, others_run, rfl⟩ := gatherAll_cons_eq_ok.mp run
      have front : Conjoined owner next middle [node] [first] :=
        conjoined_of_gatherConjunctions node here below first_run
      exact front.append (conjoined_of_gatherAll rest later others_run)
termination_by structural row => row

end

end Node

end DataCondition
