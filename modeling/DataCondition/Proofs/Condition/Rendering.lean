import DataCondition.Proofs.Condition.Atoms
import DataCondition.Proofs.Condition.Subjects
import DataCondition.Proofs.Text.Spaces
import DataCondition.Proofs.Tree.Rendering

/-!
# Accepted conditions are told apart by their rendered trees

The words of a condition hold no blanks, so the only blanks in the text of a test are the spaces
between its words: no test breaks its line. None is taken for another kind of node either, because
what labels those nodes does not decode.
-/

namespace DataCondition

namespace Token

/-- The words of a list are joined with commas and spaces only. -/
theorem forall_mem_compact {property : Char → Prop} {words : List Text} (comma : property ',')
    (space : property ' ') (each : ∀ word ∈ words, ∀ char ∈ word, property char) :
    ∀ char ∈ compact words, property char := by
  have joined : ∀ char ∈ [' '].intercalate words, property char :=
    (Text.forall_mem_intercalate (List.forall_mem_singleton.mpr space)).mpr each
  have comma' : ∀ char ∈ [','], property char := List.forall_mem_singleton.mpr comma
  rw [← @List.intercalate_splitOn Char ([' '].intercalate words) _ _ ',',
    Text.forall_mem_intercalate comma'] at joined
  apply (Text.forall_mem_intercalate comma').mpr
  intro part isPart char inside
  obtain ⟨entry, isEntry, rfl⟩ := List.mem_map.mp isPart
  exact joined entry isEntry char (Text.mem_of_mem_trim inside)

/-- The only blanks in the text of a test are spaces. -/
theorem Tests.eq_space_of_isBlank {words : List Text} {text : Text} (tests : Tests words text)
    (normal : ∀ word ∈ words, Word.IsNormal word) :
    ∀ char ∈ text, Text.isBlank char → char = ' ' := by
  have solid {part : Text} (unbroken : ∀ char ∈ part, Text.isBlank char = false) :
      ∀ char ∈ part, Text.isBlank char → char = ' ' := by
    intro char inside blank
    rw [unbroken char inside] at blank
    cases blank
  induction tests with
  | @plain word _ => exact solid (normal word (List.mem_singleton_self word)).unbroken
  | @membership words subject before operator items unclosed induction =>
      rw [List.forall_mem_append, List.forall_mem_cons, List.forall_mem_cons,
        List.forall_mem_append] at normal
      obtain ⟨first, isOperator, -, listed, -⟩ := normal
      have list := @forall_mem_compact (fun char => Text.isBlank char → char = ' ') items
        (by decide) (by decide) fun word isItem => solid (listed word isItem).unbroken
      intro char inside blank
      simp only [membershipText, List.mem_append, List.mem_cons, List.not_mem_nil,
        or_false] at inside
      rcases inside with ((test | rfl | word) | rfl | rfl | entry) | rfl
      · exact induction first char test blank
      · rfl
      · exact solid isOperator.unbroken char word blank
      · rfl
      · cases blank
      · exact list char entry blank
      · cases blank

end Token

namespace Node

theorem mem_atoms {tree node : Node} {text : Text} (member : node ∈ tree.nodes)
    (test : node.kind = .atom text) : text ∈ tree.atoms := by
  obtain ⟨⟨depth, part⟩, within, rfl⟩ := List.mem_map.mp member
  have found : part.atom? = some text := by
    change part.kind = .atom text at test
    simp only [atom?, test]
  exact List.mem_filterMap.mpr ⟨(depth, part), within, found⟩

/-- What labels nodes that are no tests does not decode. -/
theorem not_mem_fixedLabels {text : Text} {atom : Atom} (read : Atom.ofText text = .ok atom) :
    text ∉ Kind.fixedLabels := by
  have refused : ∀ label ∈ Kind.fixedLabels, (Atom.ofText label).isOk = false := by
    decide +kernel
  intro isLabel
  have failed := refused text isLabel
  rw [read] at failed
  cases failed

end Node

namespace Condition

/-- No test of an accepted condition breaks its line or has the label of another kind of node. -/
theorem isLegible_of_tree {condition : Text} {tree : Node}
    (accepted : Condition.tree condition = .ok tree) :
    ∀ node ∈ tree.nodes, node.kind.IsLegible := by
  intro node member
  have shaped := (isCanonical_of_tree accepted).shaped node member
  cases kind : node.kind with
  | atom text =>
      have isTest : text ∈ tree.atoms := Node.mem_atoms member kind
      obtain ⟨words, tests, normal⟩ := exists_tests_of_tree accepted isTest
      obtain ⟨tokens, atoms, -, -, decoded⟩ := readAtoms_of_tree accepted
      obtain ⟨atom, read⟩ := Error.exists_of_mapM_eq_ok decoded text isTest
      constructor
      · intro inside
        cases tests.eq_space_of_isBlank normal '\n' inside rfl
      · exact Node.not_mem_fixedLabels read
  | connective link => exact shaped.kind_ne_connective link kind
  | _ => trivial

/-- Conditions whose trees are rendered alike have the same tree. -/
theorem tree_eq_of_render_eq {first second : Text} {left right : Node}
    (accepted : Condition.tree first = .ok left) (accepted' : Condition.tree second = .ok right)
    (same : left.render = right.render) : left = right :=
  Node.eq_of_render_eq (isLegible_of_tree accepted) (isLegible_of_tree accepted') same

/-- The trees of `a > 1 or b in (c, d)` and `a>1 or b in ( c,d )` are rendered alike. -/
theorem tree_eq_of_spacing :
    ∃ left right, Condition.tree "a > 1 or b in (c, d)".toList = .ok left ∧
      Condition.tree "a>1 or b in ( c,d )".toList = .ok right ∧
      left.render = right.render ∧ left = right := by
  let tree : Node := ⟨0, none, .root, [
    ⟨4, some 0, .disjunct, [⟨1, some 4, .atom "a>1".toList, []⟩]⟩,
    ⟨5, some 0, .disjunct, [⟨3, some 5, .atom "b in (c,d)".toList, []⟩]⟩]⟩
  have accepted : Condition.tree "a > 1 or b in (c, d)".toList = .ok tree :=
    Error.eq_ok_of_toOption (by decide +kernel)
  have accepted' : Condition.tree "a>1 or b in ( c,d )".toList = .ok tree :=
    Error.eq_ok_of_toOption (by decide +kernel)
  exact ⟨tree, tree, accepted, accepted', rfl, tree_eq_of_render_eq accepted accepted' rfl⟩

end Condition

end DataCondition
