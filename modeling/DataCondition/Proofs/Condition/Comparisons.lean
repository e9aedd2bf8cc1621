import DataCondition.Proofs.Atom.Comparison
import DataCondition.Proofs.Condition.Subjects

/-!
# The comparisons of accepted conditions

A comparison that has more than one symbol is accepted, if something stands on both sides of the
first. The rest of it, with the other symbols, is then taken as a text.
-/

namespace DataCondition

namespace Condition

open Word (symbols)

/-- All comparisons of an accepted condition are with literals exactly if each has one symbol. -/
theorem forall_comparesLiteral_iff {condition : Text} {tree : Node}
    (accepted : Condition.tree condition = .ok tree) :
    ∃ atoms, tree.readAtoms = .ok atoms ∧
      ((∀ atom ∈ atoms, atom.ComparesLiteral) ↔
        ∀ text ∈ tree.atoms, ' ' ∉ text → ∃ operator, symbols text = [operator]) := by
  obtain ⟨-, atoms, -, -, decoded⟩ := readAtoms_of_tree accepted
  refine ⟨atoms, decoded, Atom.forall_ofTexts_iff decoded ?_⟩
  intro text member atom read
  obtain ⟨words, tests, normal⟩ := exists_tests_of_tree accepted member
  exact tests.comparesLiteral_iff normal read

/-- In `a.x >= 2 and b in (c=d)` the one comparison has one symbol, and it is with a literal. -/
theorem forall_comparesLiteral_of_symbols :
    ∃ tree atoms, Condition.tree "a.x >= 2 and b in (c=d)".toList = .ok tree ∧
      tree.readAtoms = .ok atoms ∧ ∀ atom ∈ atoms, atom.ComparesLiteral := by
  have accepted : Condition.tree "a.x >= 2 and b in (c=d)".toList = .ok ⟨0, none, .root,
      [⟨4, some 0, .disjunct, [⟨5, some 4, .conjunction,
        [⟨1, some 5, .atom "a.x>=2".toList, []⟩, ⟨3, some 5, .atom "b in (c=d)".toList, []⟩]⟩]⟩]⟩ :=
    Error.eq_ok_of_toOption (by decide +kernel)
  obtain ⟨atoms, decoded, single⟩ := forall_comparesLiteral_iff accepted
  refine ⟨_, atoms, accepted, decoded, single.mpr ?_⟩
  change ∀ text ∈ ["a.x>=2".toList, "b in (c=d)".toList], _
  rw [List.forall_mem_cons, List.forall_mem_singleton]
  exact ⟨fun _ => ⟨.greaterEqual, by decide +kernel⟩, absurd (by decide +kernel)⟩

/-- The condition `a < b < c` is accepted, although it compares `a` with `b<c`. -/
theorem accepted_chained :
    ∃ tree atom, Condition.tree "a < b < c".toList = .ok tree ∧ tree.readAtoms = .ok [atom] ∧
      ¬ atom.ComparesLiteral :=
  ⟨⟨firstId, none, .atom "a<b<c".toList, []⟩,
    ⟨⟨none, "a".toList⟩, .compare .less (.text "b<c".toList)⟩,
    Error.eq_ok_of_toOption (by decide +kernel), Error.eq_ok_of_toOption (by decide +kernel),
    fun compares => absurd (compares .less (.text "b<c".toList) rfl) (by decide +kernel)⟩

end Condition

end DataCondition
