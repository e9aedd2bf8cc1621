import DataCondition.Proofs.Grammar.LogicTree
import DataCondition.Proofs.Tree.Atoms

/-!
# The tests of a derivation

Grouping tokens to a logic tree keeps their tests and the order of these.
-/

namespace DataCondition

namespace Token

@[simp]
theorem atom?_connective (link : Connective) : (connective link).atom? = none := rfl

@[simp]
theorem atom?_opening : opening.atom? = none := rfl

@[simp]
theorem atom?_closing : closing.atom? = none := rfl

theorem mem_filterMap_atom? {tokens : List Token} {text : Text} :
    text ∈ tokens.filterMap atom? ↔ .atom text ∈ tokens := by
  rw [List.mem_filterMap]
  constructor
  · rintro ⟨_ | _ | _ | _, member, ⟨⟩⟩
    exact member
  · intro member
    exact ⟨.atom text, member, rfl⟩

end Token

namespace Grammar

open Node (textsAll)

mutual

theorem Disjunction.textsAll_alternatives : ∀ disjunction : Disjunction,
    textsAll disjunction.alternatives = disjunction.tokens.filterMap Token.atom?
  | .last conjunction => Conjunction.textsAll_alternatives conjunction
  | .or first later => by
      simp [Disjunction.alternatives, Disjunction.tokens, List.filterMap_cons, Node.textsAll_append,
        Conjunction.textsAll_alternatives first, Disjunction.textsAll_alternatives later]

theorem Conjunction.textsAll_alternatives : ∀ conjunction : Conjunction,
    textsAll conjunction.alternatives = conjunction.tokens.filterMap Token.atom?
  | .last (.test text) => rfl
  | .last (.group inner) => by
      simp [Conjunction.alternatives, Conjunction.tokens, List.filterMap_cons, Term.tokens,
        Disjunction.textsAll_alternatives inner]
  | .and first later => by
      simp [Conjunction.alternatives, Conjunction.tokens, List.filterMap_cons, Node.bare,
        Node.texts, textsAll, Term.texts_operand first, Conjunction.textsAll_operands later]

theorem Conjunction.textsAll_operands : ∀ conjunction : Conjunction,
    textsAll conjunction.operands = conjunction.tokens.filterMap Token.atom?
  | .last term => by
      simp [Conjunction.operands, Conjunction.tokens, textsAll, Term.texts_operand term]
  | .and first later => by
      simp [Conjunction.operands, Conjunction.tokens, List.filterMap_cons, textsAll,
        Term.texts_operand first, Conjunction.textsAll_operands later]

theorem Term.texts_operand : ∀ term : Term,
    term.operand.texts = term.tokens.filterMap Token.atom?
  | .test _ => rfl
  | .group inner => by
      simp [Term.operand, Term.tokens, List.filterMap_cons, Node.bare, Node.texts,
        Disjunction.textsAll_alternatives inner]

end

theorem Disjunction.atoms_tree (disjunction : Disjunction) :
    disjunction.tree.atoms = disjunction.tokens.filterMap Token.atom? := by
  by_cases alone : ∃ text, disjunction = .test text
  · obtain ⟨text, rfl⟩ := alone
    rfl
  · rw [Disjunction.tree_of_ne_test (by simpa using alone), Node.atoms_eq_texts]
    exact disjunction.textsAll_alternatives

end Grammar

namespace Node

/-- A logic tree has the tests of its tokens, in order. -/
theorem atoms_of_logicTree {tokens : List Token} {next after : UInt32} {tree : Node}
    (built : (logicTree tokens).run next = .ok (tree, after)) :
    tree.atoms = tokens.filterMap Token.atom? := by
  obtain ⟨-, disjunction, rfl⟩ := Grammar.exists_tokens_of_logicTree built
  rw [← atoms_erased, Grammar.Disjunction.erased_of_logicTree built, disjunction.atoms_tree]

end Node

end DataCondition
