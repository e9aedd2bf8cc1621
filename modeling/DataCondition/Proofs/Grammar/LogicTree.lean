import DataCondition.Condition
import DataCondition.Proofs.Grammar.Alternatives
import DataCondition.Proofs.Grammar.Disjuncts
import DataCondition.Proofs.Grammar.Soundness

/-!
# Logic trees of derivations

Tokens have a logic tree exactly if they have a derivation that is not too deep. The logic tree is
then that of the derivation, up to its numbers.
-/

namespace DataCondition

namespace Grammar

open Node (erasedAll allNested spellingAll)

mutual

theorem Disjunction.allNested_nested : ∀ disjunction : Disjunction, allNested disjunction.nested
  | .last conjunction => Conjunction.allNested_nested conjunction
  | .or first later => by
      have link : (linkNode .or).isNested := rfl
      simp [Disjunction.nested, allNested, link, Conjunction.allNested_nested first,
        Disjunction.allNested_nested later]

theorem Conjunction.allNested_nested : ∀ conjunction : Conjunction, allNested conjunction.nested
  | .last term => by
      simp [Conjunction.nested, allNested, Term.isNested_nested term]
  | .and first later => by
      have link : (linkNode .and).isNested := rfl
      simp [Conjunction.nested, allNested, link, Term.isNested_nested first,
        Conjunction.allNested_nested later]

theorem Term.isNested_nested : ∀ term : Term, term.nested.isNested
  | .test _ => rfl
  | .group inner => Disjunction.allNested_nested inner

end

mutual

/-- The tree of parentheses of a derivation spells its tokens. -/
theorem Disjunction.spellingAll_nested : ∀ disjunction : Disjunction,
    spellingAll disjunction.nested = disjunction.tokens
  | .last conjunction => Conjunction.spellingAll_nested conjunction
  | .or first later => by
      have link : (linkNode .or).spelling = [.connective .or] := rfl
      simp [Disjunction.nested, Disjunction.tokens, spellingAll, link,
        Conjunction.spellingAll_nested first, Disjunction.spellingAll_nested later]

theorem Conjunction.spellingAll_nested : ∀ conjunction : Conjunction,
    spellingAll conjunction.nested = conjunction.tokens
  | .last term => by
      simp [Conjunction.nested, Conjunction.tokens, spellingAll, Term.spelling_nested term]
  | .and first later => by
      have link : (linkNode .and).spelling = [.connective .and] := rfl
      simp [Conjunction.nested, Conjunction.tokens, spellingAll, link, Term.spelling_nested first,
        Conjunction.spellingAll_nested later]

theorem Term.spelling_nested : ∀ term : Term, term.nested.spelling = term.tokens
  | .test _ => rfl
  | .group inner => by
      simp [Term.nested, Term.tokens, Node.bare, Node.spelling,
        Disjunction.spellingAll_nested inner]

end

mutual

theorem Disjunction.erasedAll_nested : ∀ disjunction : Disjunction,
    erasedAll disjunction.nested = disjunction.nested
  | .last conjunction => Conjunction.erasedAll_nested conjunction
  | .or first later => by
      have link : (linkNode .or).erased = linkNode .or := rfl
      simp [Disjunction.nested, link, Conjunction.erasedAll_nested first,
        Disjunction.erasedAll_nested later]

theorem Conjunction.erasedAll_nested : ∀ conjunction : Conjunction,
    erasedAll conjunction.nested = conjunction.nested
  | .last term => by
      simp [Conjunction.nested, Term.erased_nested term]
  | .and first later => by
      have link : (linkNode .and).erased = linkNode .and := rfl
      simp [Conjunction.nested, link, Term.erased_nested first,
        Conjunction.erasedAll_nested later]

theorem Term.erased_nested : ∀ term : Term, term.nested.erased = term.nested
  | .test _ => rfl
  | .group inner => by
      simp [Term.nested, Node.bare, Node.erased, Disjunction.erasedAll_nested inner]

end

theorem Conjunction.tokens_ne_nil : ∀ conjunction : Conjunction, conjunction.tokens ≠ []
  | .last (.test _) => by simp [Conjunction.tokens, Term.tokens]
  | .last (.group _) => by simp [Conjunction.tokens, Term.tokens]
  | .and _ _ => by simp [Conjunction.tokens]

theorem Disjunction.tokens_ne_nil : ∀ disjunction : Disjunction, disjunction.tokens ≠ []
  | .last conjunction => conjunction.tokens_ne_nil
  | .or _ _ => by simp [Disjunction.tokens]

/-- Only a lone test has the tokens of a lone test. -/
theorem Disjunction.eq_test_of_tokens {text : Text} : ∀ disjunction : Disjunction,
    disjunction.tokens = [.atom text] → disjunction = .test text
  | .last (.last (.test _)), alone => by
      simpa [Disjunction.tokens, Conjunction.tokens, Term.tokens, Disjunction.test] using alone
  | .last (.last (.group _)), alone => by
      simp [Disjunction.tokens, Conjunction.tokens, Term.tokens] at alone
  | .last (.and _ later), alone => by
      have some := later.tokens_ne_nil
      simp [Disjunction.tokens, Conjunction.tokens, List.append_eq_singleton_iff] at alone
  | .or _ later, alone => by
      simp [Disjunction.tokens, List.append_eq_singleton_iff] at alone

theorem Disjunction.tree_of_ne_test {disjunction : Disjunction}
    (compound : ∀ text, disjunction ≠ .test text) :
    disjunction.tree = .bare .root disjunction.alternatives := by
  unfold Disjunction.tree
  split
  next text => exact (compound text rfl).elim
  next => rfl

/-- Tokens with a logic tree have a derivation. -/
theorem exists_tokens_of_logicTree {tokens : List Token} {next : UInt32} {result : Node × UInt32}
    (built : Node.logicTree tokens next = .ok result) :
    Token.nesting tokens ≤ Nesting.limit ∧
      ∃ disjunction : Disjunction, disjunction.tokens = tokens := by
  obtain ⟨nestedTree, middle, nested_run, passes⟩ := Numbering.bind_eq_ok.mp built
  obtain ⟨disjoined, between, disjoined_run, conjoined_run⟩ := Numbering.bind_eq_ok.mp passes
  refine ⟨Node.nesting_le_of_ofTokens nested_run, ?_⟩
  rcases Node.ofTokens_eq_ok nested_run with ⟨text, rfl, -⟩ | ⟨row, nested, rfl, rfl⟩
  · exact ⟨.test text, rfl⟩
  · obtain ⟨-, gathered, row_run, rfl⟩ := (Node.gatherDisjuncts_eq_ok rfl).mp disjoined_run
    obtain ⟨tree, after⟩ := result
    rcases Node.gatherConjunctions_eq_ok.mp conjoined_run with
      ⟨kind, -⟩ | ⟨kind, -⟩ | ⟨-, children, children_run, -⟩
    · cases kind
    · cases kind
    · obtain ⟨disjunction, shape⟩ := exists_disjunction row nested row_run children_run
      refine ⟨disjunction, ?_⟩
      rw [← disjunction.spellingAll_nested, shape, Node.spellingAll_erasedAll]

/-- The tokens of a derivation that is not too deep have its logic tree. -/
theorem Disjunction.logicTree_tokens (disjunction : Disjunction)
    (within : Token.nesting disjunction.tokens ≤ Nesting.limit) (next : UInt32) :
    ∃ tree after, Node.logicTree disjunction.tokens next = .ok (tree, after) ∧
      tree.erased = disjunction.tree := by
  by_cases alone : ∃ text, disjunction = .test text
  · obtain ⟨text, rfl⟩ := alone
    exact ⟨⟨next, none, .atom text, []⟩, next + 1, rfl, rfl⟩
  · have compound : ∀ text, disjunction ≠ .test text := by simpa using alone
    have several : ∀ text, disjunction.tokens ≠ [.atom text] := fun text lone =>
      compound text (disjunction.eq_test_of_tokens lone)
    have spelled := disjunction.spellingAll_nested
    have nested_run := Node.ofTokens_spellingAll disjunction.allNested_nested
      (by simpa [spelled] using disjunction.tokens_ne_nil) (by simpa [spelled] using several)
      (by simpa [spelled] using within) next
    rw [spelled] at nested_run
    have shape := (Node.erasedAll_numberedAll Nesting.rootId next disjunction.nested).trans
      disjunction.erasedAll_nested
    have nonempty := Disjunction.ne_nil_of_nested shape
    obtain ⟨disjoined, middle, disjoined_run, disjoined_shape⟩ :=
      disjunction.gather_nested Nesting.rootId (next + Node.sizeAll disjunction.nested) shape
    obtain ⟨conjoined, after, conjoined_run, conjoined_shape⟩ :=
      disjunction.gather_disjuncts middle disjoined_shape
    refine ⟨⟨Nesting.rootId, none, .root, conjoined⟩, after, ?_, ?_⟩
    · refine Numbering.bind_eq_ok.mpr ⟨_, _, nested_run, Numbering.bind_eq_ok.mpr ⟨_, _,
        (Node.gatherDisjuncts_eq_ok rfl).mpr ⟨nonempty, disjoined, disjoined_run, rfl⟩, ?_⟩⟩
      exact Node.gatherConjunctions_eq_ok.mpr
        (.inr (.inr ⟨nofun, conjoined, conjoined_run, rfl⟩))
    · rw [Disjunction.tree_of_ne_test compound, Node.erased, conjoined_shape]

/-- Whatever its numbers are, the logic tree of a derivation's tokens is that of the derivation. -/
theorem Disjunction.erased_of_logicTree {disjunction : Disjunction} {next after : UInt32}
    {tree : Node} (built : Node.logicTree disjunction.tokens next = .ok (tree, after)) :
    tree.erased = disjunction.tree := by
  have within := (exists_tokens_of_logicTree built).1
  obtain ⟨found, stop, run, shape⟩ := disjunction.logicTree_tokens within next
  obtain ⟨rfl, rfl⟩ : found = tree ∧ stop = after := by
    simpa using run.symm.trans built
  exact shape

end Grammar

end DataCondition
