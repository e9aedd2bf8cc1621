import DataCondition.Proofs.Atom.Subject
import DataCondition.Proofs.Condition.Tree
import DataCondition.Proofs.Token.Folding

/-!
# The subjects of accepted conditions

All tests of an accepted condition decode, but what they test need not be an attribute.
-/

namespace DataCondition

namespace Atom

/-- If single texts decode to atoms with a property that can be told from the texts, so do rows. -/
theorem forall_ofTexts_iff {told : Text → Prop} {property : Atom → Prop} {texts : List Text}
    {atoms : List Atom} (decoded : ofTexts texts = .ok atoms)
    (single : ∀ text ∈ texts, ∀ atom, ofText text = .ok atom → (property atom ↔ told text)) :
    (∀ atom ∈ atoms, property atom) ↔ ∀ text ∈ texts, told text := by
  induction ofTexts_eq_ok.mp decoded with
  | nil => simp
  | @cons text atom texts atoms first later induction =>
      rw [List.forall_mem_cons] at single
      rw [List.forall_mem_cons, List.forall_mem_cons, single.1 atom first,
        induction (ofTexts_eq_ok.mpr later) single.2]

end Atom

namespace Condition

/-- Every test among the tokens of a condition is read from normal words. -/
theorem exists_tests_of_tokens {condition : Text} {tokens : List Token}
    (scanned : Condition.tokens condition = .ok tokens) {text : Text}
    (member : .atom text ∈ tokens) :
    ∃ words, Token.Tests words text ∧ ∀ word ∈ words, Word.IsNormal word := by
  obtain ⟨words, tests, within⟩ :=
    (consumed_of_tokens scanned).exists_tests (List.mem_reverse.mpr member)
  exact ⟨words, tests, fun word inside => isNormal_of_mem_words (within word inside)⟩

/-- Every test of an accepted condition is read from normal words. -/
theorem exists_tests_of_tree {condition : Text} {tree : Node}
    (accepted : Condition.tree condition = .ok tree) {text : Text} (member : text ∈ tree.atoms) :
    ∃ words, Token.Tests words text ∧ ∀ word ∈ words, Word.IsNormal word := by
  obtain ⟨tokens, atoms, scanned, same, -⟩ := readAtoms_of_tree accepted
  rw [same, Token.mem_filterMap_atom?] at member
  exact exists_tests_of_tokens scanned member

/-- The atoms of an accepted condition all test references exactly if their texts are direct. -/
theorem forall_isReference_iff {condition : Text} {tree : Node}
    (accepted : Condition.tree condition = .ok tree) :
    ∃ atoms, tree.readAtoms = .ok atoms ∧
      ((∀ atom ∈ atoms, Atom.IsReference atom.subject.toText) ↔
        ∀ text ∈ tree.atoms, Atom.Direct text) := by
  obtain ⟨tokens, atoms, scanned, same, decoded⟩ := readAtoms_of_tree accepted
  refine ⟨atoms, decoded, Atom.forall_ofTexts_iff decoded ?_⟩
  intro text member atom read
  rw [same, Token.mem_filterMap_atom?] at member
  obtain ⟨part, tests, within⟩ :=
    (consumed_of_tokens scanned).exists_tests (List.mem_reverse.mpr member)
  have normal : ∀ word ∈ part, Word.IsNormal word :=
    fun word inside => isNormal_of_mem_words (within word inside)
  exact tests.isReference_iff_direct normal read

/-- In `a.x > 2 and b in (c)` the texts of both tests are direct, so both test references. -/
theorem forall_isReference_of_direct :
    ∃ tree atoms, Condition.tree "a.x > 2 and b in (c)".toList = .ok tree ∧
      tree.readAtoms = .ok atoms ∧ ∀ atom ∈ atoms, Atom.IsReference atom.subject.toText := by
  have accepted : Condition.tree "a.x > 2 and b in (c)".toList = .ok ⟨0, none, .root,
      [⟨4, some 0, .disjunct, [⟨5, some 4, .conjunction,
        [⟨1, some 5, .atom "a.x>2".toList, []⟩, ⟨3, some 5, .atom "b in (c)".toList, []⟩]⟩]⟩]⟩ :=
    Error.eq_ok_of_toOption (by decide +kernel)
  obtain ⟨atoms, decoded, direct⟩ := forall_isReference_iff accepted
  refine ⟨_, atoms, accepted, decoded, direct.mpr ?_⟩
  have comparison : Atom.Direct "a.x>2".toList := .inl (by decide +kernel)
  have membership : Atom.Direct "b in (c)".toList :=
    .inr ⟨"b".toList, .member, "(c)".toList, by decide +kernel, by decide +kernel,
      fun _ => by decide +kernel⟩
  change ∀ text ∈ ["a.x>2".toList, "b in (c)".toList], Atom.Direct text
  rw [List.forall_mem_cons, List.forall_mem_singleton]
  exact ⟨comparison, membership⟩

/-- The condition `A.x > 2 in (b)` is accepted, although it tests `A.x>2`, which is no attribute. -/
theorem accepted_unreferenced :
    ∃ tree atom, Condition.tree "A.x > 2 in (b)".toList = .ok tree ∧
      tree.readAtoms = .ok [atom] ∧ ¬ Atom.IsReference atom.subject.toText :=
  ⟨⟨firstId, none, .atom "A.x>2 in (b)".toList, []⟩,
    ⟨⟨some "A".toList, "x>2".toList⟩, .search .member [.text "b".toList]⟩,
    Error.eq_ok_of_toOption (by decide +kernel), Error.eq_ok_of_toOption (by decide +kernel),
    by decide +kernel⟩

end Condition

end DataCondition
