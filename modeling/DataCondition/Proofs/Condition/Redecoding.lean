import DataCondition.Proofs.Atom.Redecoding
import DataCondition.Proofs.Condition.Rendering

/-!
# Accepted tests are decoded from their own texts

The words of a test stand on single spaces, so that its text is cut at the same place whatever its
literals are written like. Its atom is read back, unless it holds decimal numbers.
-/

namespace DataCondition

namespace Token

open Text (IsCore IsTidy)

/-- The entries of a list stand on single spaces. -/
theorem not_infix_compact {words : List Text} (normal : ∀ word ∈ words, Word.IsNormal word) :
    ¬ [' ', ' '] <:+: compact words := by
  intro inside
  obtain ⟨part, isPart, within⟩ :=
    Text.exists_infix_of_intercalate (List.cons_ne_nil _ _) (by decide) inside
  obtain ⟨entry, isEntry, rfl⟩ := List.mem_map.mp isPart
  have spaced : ' ' :: [] ++ [' '] <:+: [' '].intercalate words :=
    (within.trans (Text.trim_infix entry)).trans (Text.infix_of_mem_splitOn isEntry).2
  have apart : ∀ word ∈ words, ' ' ∉ word :=
    fun word isWord inside => by cases (normal word isWord).unbroken ' ' inside
  have inner := (Text.infix_intercalate_iff List.not_mem_nil apart).mp spaced
  exact (normal [] (List.mem_of_mem_tail (List.mem_of_mem_dropLast inner))).nonempty rfl

/-- A test neither starts nor ends with a blank. -/
theorem Tests.isCore {words : List Text} {text : Text} (tests : Tests words text)
    (normal : ∀ word ∈ words, Word.IsNormal word) : IsCore text := by
  induction tests with
  | @plain word role =>
      have solid := isSolid_of_plain (normal word (List.mem_singleton_self word)) role
      exact ⟨⟨fun char first => solid.unbroken char (List.mem_of_mem_head? first),
        fun char last => solid.unbroken char (List.mem_of_getLast? last)⟩, solid.nonempty⟩
  | @membership words subject before operator items unclosed induction =>
      have core := induction (List.forall_mem_append.mp normal).1
      obtain ⟨char, rest, rfl⟩ := List.exists_cons_of_ne_nil core.nonempty
      refine ⟨⟨core.first, ?_⟩, List.cons_ne_nil _ _⟩
      rw [membershipText, List.getLast?_concat]
      rintro char ⟨⟩
      rfl

/-- No two blanks of a test stand together. -/
theorem Tests.not_infix {words : List Text} {text : Text} (tests : Tests words text)
    (normal : ∀ word ∈ words, Word.IsNormal word) : ¬ [' ', ' '] <:+: text := by
  induction tests with
  | @plain word role =>
      intro inside
      cases (normal word (List.mem_singleton_self word)).unbroken ' '
        (inside.subset List.mem_cons_self)
  | @membership words subject before operator items unclosed induction =>
      rw [List.forall_mem_append, List.forall_mem_cons, List.forall_mem_cons,
        List.forall_mem_append] at normal
      have core := before.isCore normal.1
      obtain ⟨front, char, rfl⟩ := (List.eq_nil_or_concat' subject).resolve_left core.nonempty
      have solid : char ∉ [' ', ' '] := by
        have last := core.last char List.getLast?_concat
        rw [List.mem_cons, List.mem_singleton, or_self]
        rintro rfl
        cases last
      have shape : membershipText (front ++ [char]) operator items =
          front ++ char :: (' ' :: operator.word ++ [' ']) ++ '(' :: (compact items ++ [')']) := by
        simp [membershipText]
      have list := @Text.infix_append_cons_iff [' ', ' '] (compact items) [] ')' (by decide)
      rw [shape, Text.infix_append_cons_iff (by decide), Text.infix_append_cons_iff solid, list,
        not_or, not_or, not_or]
      refine ⟨⟨?_, ?_⟩, not_infix_compact normal.2.2.2.1, by decide⟩
      · exact fun inside => induction normal.1 (inside.trans List.infix_append_left)
      · cases operator <;> decide

/-- The text of a test is tidy. -/
theorem Tests.isTidy {words : List Text} {text : Text} (tests : Tests words text)
    (normal : ∀ word ∈ words, Word.IsNormal word) : IsTidy text :=
  ⟨tests.isCore normal, tests.eq_space_of_isBlank normal, tests.not_infix normal⟩

/-- A test without decimal numbers is decoded again from the text that it is written as. -/
theorem Tests.ofText_toText {words : List Text} {text : Text} (tests : Tests words text)
    (normal : ∀ word ∈ words, Word.IsNormal word) {atom : Atom}
    (decoded : Atom.ofText text = .ok atom) (exact : atom.IsExact) :
    Atom.ofText atom.toText = .ok atom := by
  obtain ⟨word, solid, rfl | ⟨operator, list, rfl⟩⟩ := tests.exists_word normal
  · exact Atom.ofText_toText_of_unbroken solid.unbroken decoded exact
  · obtain ⟨_, _, _, found, first, searched⟩ := Atom.exists_cut_of_spaced ⟨word, list, rfl⟩ decoded
    exact Atom.ofText_toText_of_cut (tests.isTidy normal) found first searched exact

end Token

namespace Condition

/--
Every test of an accepted condition decodes to an atom, which is decoded again from the text that it
is written as, if it holds no decimal numbers.
-/
theorem ofText_toText_of_tree {condition : Text} {tree : Node}
    (accepted : Condition.tree condition = .ok tree) :
    ∀ text ∈ tree.atoms, ∃ atom, Atom.ofText text = .ok atom ∧
      (atom.IsExact → Atom.ofText atom.toText = .ok atom) := by
  intro text member
  obtain ⟨words, tests, normal⟩ := exists_tests_of_tree accepted member
  obtain ⟨tokens, atoms, -, -, decoded⟩ := readAtoms_of_tree accepted
  obtain ⟨atom, read⟩ := Error.exists_of_mapM_eq_ok decoded text member
  exact ⟨atom, read, tests.ofText_toText normal read⟩

/-- The list of `a > 1 and b in (TRUE, 007, x y)` is written with other literals, and read back. -/
theorem ofText_toText_of_list :
    ∃ tree atom, Condition.tree "a > 1 and b in (TRUE, 007, x y)".toList = .ok tree ∧
      "b in (TRUE,007,x y)".toList ∈ tree.atoms ∧
      Atom.ofText "b in (TRUE,007,x y)".toList = .ok atom ∧ atom.IsExact ∧
      atom.toText = "b in (true,7,x y)".toList ∧ Atom.ofText atom.toText = .ok atom := by
  have accepted : Condition.tree "a > 1 and b in (TRUE, 007, x y)".toList = .ok ⟨0, none, .root,
      [⟨4, some 0, .disjunct, [⟨5, some 4, .conjunction,
        [⟨1, some 5, .atom "a>1".toList, []⟩,
          ⟨3, some 5, .atom "b in (TRUE,007,x y)".toList, []⟩]⟩]⟩]⟩ :=
    Error.eq_ok_of_toOption (by decide +kernel)
  let atom : Atom :=
    ⟨⟨none, ['b']⟩, .search .member [.boolean true, .integer 7, .text ['x', ' ', 'y']]⟩
  have decoded : Atom.ofText "b in (TRUE,007,x y)".toList = .ok atom :=
    Error.eq_ok_of_toOption (by decide +kernel)
  have exact : atom.IsExact := fun value => by simp [atom, Test.literals]
  have member : "b in (TRUE,007,x y)".toList ∈ ["a>1".toList, "b in (TRUE,007,x y)".toList] := by
    decide
  obtain ⟨found, read, again⟩ := ofText_toText_of_tree accepted _ member
  obtain rfl := Except.ok.inj (decoded.symm.trans read)
  exact ⟨_, atom, accepted, member, decoded, exact, by decide +kernel, again exact⟩

end Condition

end DataCondition
