import DataCondition.Proofs.Grammar.Basic
import DataCondition.Proofs.Token.Parentheses

/-!
# The parentheses of derivations

The parentheses that are tokens pair off in a derivation, so that it is balanced as far as its
tests are.
-/

namespace DataCondition

namespace Token

open Text

/-- Tokens written one after the other are balanced as far as the tests among them are. -/
structure Paired (tokens : List Token) : Prop where
  covered : Covered (join tokens)
  closed : Closed (join tokens) ↔ ∀ text, .atom text ∈ tokens → Closed text

theorem paired_atom {text : Text} (covered : Covered text) : Paired [.atom text] where
  covered := by simpa [join, toText] using covered
  closed := by simp [join, toText]

theorem Paired.append_link {left right : List Token} (first : Paired left) (link : Connective)
    (second : Paired right) : Paired (left ++ .connective link :: right) := by
  have plain : parentheses link.word = [] := by cases link <;> rfl
  have shape : parentheses (join (left ++ .connective link :: right)) =
      parentheses (join left ++ join right) := by
    simp [join, toText, plain]
  constructor
  · rw [← covered_parentheses, shape, covered_parentheses]
    exact first.covered.append second.covered
  · rw [← closed_parentheses, shape, closed_parentheses,
      first.covered.closed_append second.covered, first.closed, second.closed]
    simp [or_imp, forall_and]

theorem Paired.enclose {inner : List Token} (paired : Paired inner) :
    Paired (.opening :: inner ++ [.closing]) := by
  have shape : join (.opening :: inner ++ [.closing]) = '(' :: join inner ++ [')'] := by
    simp [join, toText]
  constructor
  · rw [shape]
    exact paired.covered.enclose
  · rw [shape, closed_enclose, paired.closed]
    simp

end Token

namespace Grammar

open Text
open Token (Paired)

mutual

theorem Disjunction.paired_tokens : ∀ disjunction : Disjunction,
    (∀ text, .atom text ∈ disjunction.tokens → Covered text) → Paired disjunction.tokens
  | .last conjunction, covered => Conjunction.paired_tokens conjunction covered
  | .or first later, covered => by
      have before := Conjunction.paired_tokens first fun text member =>
        covered text (List.mem_append_left _ member)
      have after := Disjunction.paired_tokens later fun text member =>
        covered text (List.mem_append_right _ (List.mem_cons_of_mem _ member))
      exact before.append_link .or after

theorem Conjunction.paired_tokens : ∀ conjunction : Conjunction,
    (∀ text, .atom text ∈ conjunction.tokens → Covered text) → Paired conjunction.tokens
  | .last term, covered => Term.paired_tokens term covered
  | .and first later, covered => by
      have before := Term.paired_tokens first fun text member =>
        covered text (List.mem_append_left _ member)
      have after := Conjunction.paired_tokens later fun text member =>
        covered text (List.mem_append_right _ (List.mem_cons_of_mem _ member))
      exact before.append_link .and after

theorem Term.paired_tokens : ∀ term : Term,
    (∀ text, .atom text ∈ term.tokens → Covered text) → Paired term.tokens
  | .test text, covered => Token.paired_atom (covered text (List.mem_singleton_self _))
  | .group inner, covered => by
      have within := Disjunction.paired_tokens inner fun text member =>
        covered text (List.mem_cons_of_mem _ (List.mem_append_left _ member))
      exact within.enclose

end

end Grammar

end DataCondition
