import DataCondition.Token.Basic

/-!
# The grammar of conditions

A disjunction is made of conjunctions, a conjunction of terms, and a term is a test or a disjunction
in parentheses. A derivation is kept as a tree, so that its tokens, its truth value and its depth
are read off it by recursion.
-/

namespace DataCondition

namespace Grammar

mutual

/-- Conjunctions with `or` between them. -/
inductive Disjunction where
  | last (conjunction : Conjunction)
  | or (first : Conjunction) (later : Disjunction)

/-- Terms with `and` between them. -/
inductive Conjunction where
  | last (term : Term)
  | and (first : Term) (later : Conjunction)

/-- A test, or a disjunction in parentheses. -/
inductive Term where
  | test (text : Text)
  | group (inner : Disjunction)

end

mutual

/-- The tokens of a disjunction. -/
def Disjunction.tokens : Disjunction → List Token
  | .last conjunction => conjunction.tokens
  | .or first later => first.tokens ++ .connective .or :: later.tokens

/-- The tokens of a conjunction. -/
def Conjunction.tokens : Conjunction → List Token
  | .last term => term.tokens
  | .and first later => first.tokens ++ .connective .and :: later.tokens

/-- The tokens of a term. -/
def Term.tokens : Term → List Token
  | .test text => [.atom text]
  | .group inner => .opening :: inner.tokens ++ [.closing]

end

mutual

/-- The truth of a disjunction when `truth` tells the truth of every test. -/
def Disjunction.value (truth : Text → Bool) : Disjunction → Bool
  | .last conjunction => conjunction.value truth
  | .or first later => first.value truth || later.value truth

/-- The truth of a conjunction. -/
def Conjunction.value (truth : Text → Bool) : Conjunction → Bool
  | .last term => term.value truth
  | .and first later => first.value truth && later.value truth

/-- The truth of a term. -/
def Term.value (truth : Text → Bool) : Term → Bool
  | .test text => truth text
  | .group inner => inner.value truth

end

mutual

/-- How deep the parentheses of a disjunction nest. -/
def Disjunction.depth : Disjunction → Nat
  | .last conjunction => conjunction.depth
  | .or first later => max first.depth later.depth

/-- How deep the parentheses of a conjunction nest. -/
def Conjunction.depth : Conjunction → Nat
  | .last term => term.depth
  | .and first later => max first.depth later.depth

/-- How deep the parentheses of a term nest. -/
def Term.depth : Term → Nat
  | .test _ => 0
  | .group inner => inner.depth + 1

end

/-- A further term in front of the first conjunction of a disjunction. -/
def Disjunction.prepend (term : Term) : Disjunction → Disjunction
  | .last conjunction => .last (.and term conjunction)
  | .or first later => .or (.and term first) later

/-- The one disjunction that is a lone test. -/
def Disjunction.test (text : Text) : Disjunction := .last (.last (.test text))

end Grammar

end DataCondition
