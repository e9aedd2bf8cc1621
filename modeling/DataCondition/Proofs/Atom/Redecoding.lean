import DataCondition.Proofs.Atom.Comparison
import DataCondition.Proofs.Atom.Exact
import DataCondition.Proofs.Atom.Membership

/-!
# Atoms are decoded from their own texts

An atom without decimal numbers is decoded again from the text that it is written as, if it was
decoded from a word or from a membership test whose blanks are single spaces.
-/

namespace DataCondition

namespace Atom

open Text (IsTidy cut isBlank nonBlank? trim)

/-- The symbol before an exact literal is read again before its text. -/
theorem read?_symbol_toText {operator : Comparison} {rest : Text}
    (read : Comparison.read? (operator.symbol ++ rest) = some (operator, rest))
    (unbroken : ∀ char ∈ rest, isBlank char = false)
    (exact : ∀ value, Scalar.ofText rest ≠ .real value) :
    Comparison.read? (operator.symbol ++ (Scalar.ofText rest).toText) =
      some (operator, (Scalar.ofText rest).toText) := by
  rcases Scalar.toText_ofText exact with same | ⟨-, bare⟩
  · rwa [same, Text.trim_of_forall unbroken]
  · refine Comparison.read?_symbol_append operator fun equal => ?_
    exact absurd (bare '=' (List.mem_of_mem_head? equal)) (by decide)

/-- A comparison without blanks is decoded from what stands around its first symbol. -/
theorem exists_parts_of_unbroken {text : Text} (unbroken : ∀ char ∈ text, isBlank char = false)
    {atom : Atom} (decoded : ofText text = .ok atom) :
    ∃ left operator rest, text = left ++ (operator.symbol ++ rest) ∧ left ≠ [] ∧ rest ≠ [] ∧
      (∀ char ∈ left, startsSymbol char = false) ∧
      Comparison.read? (operator.symbol ++ rest) = some (operator, rest) ∧
      atom = ⟨Attribute.ofText left, .compare operator (Scalar.ofText rest)⟩ := by
  have unspaced : ' ' ∉ text := fun inside => by cases unbroken ' ' inside
  rw [ofText_of_unspaced unspaced] at decoded
  obtain ⟨name, operator, rest, literal, named, read, valued, rfl⟩ := ofComparison_eq_ok decoded
  have shape : text = text.takeWhile (fun char => !startsSymbol char) ++
      (operator.symbol ++ rest) := by
    rw [← Comparison.append_of_read? read, List.takeWhile_append_dropWhile]
  have plain : ∀ char ∈ text.takeWhile fun char => !startsSymbol char,
      startsSymbol char = false := by
    intro char member
    simpa using List.all_eq_true.mp List.all_takeWhile char member
  rw [shape, List.forall_mem_append, List.forall_mem_append] at unbroken
  rw [Comparison.append_of_read? read] at read
  rw [Text.nonBlank?_eq_some_iff, Text.trim_of_forall unbroken.1] at named
  rw [Text.nonBlank?_eq_some_iff, Text.trim_of_forall unbroken.2.2] at valued
  obtain ⟨rfl, nonempty⟩ := named
  obtain ⟨rfl, inked⟩ := valued
  exact ⟨_, operator, rest, shape, nonempty, inked, plain, read, rfl⟩

/-- A comparison without blanks is cut at the same symbol when it is written. -/
theorem ofText_toText_of_unbroken {text : Text} (unbroken : ∀ char ∈ text, isBlank char = false)
    {atom : Atom} (decoded : ofText text = .ok atom) (exact : atom.IsExact) :
    ofText atom.toText = .ok atom := by
  obtain ⟨left, operator, rest, rfl, nonempty, inked, plain, read, rfl⟩ :=
    exists_parts_of_unbroken unbroken decoded
  rw [List.forall_mem_append, List.forall_mem_append] at unbroken
  obtain ⟨leftUnbroken, -, restUnbroken⟩ := unbroken
  have single : ∀ value, Scalar.ofText rest ≠ .real value :=
    fun value same => exact value (by simp [Test.literals, same])
  have named := Text.nonBlank?_of_forall nonempty leftUnbroken
  obtain ⟨core, valued⟩ := Option.ne_none_iff_exists'.mp (Scalar.nonBlank?_toText_ofText single
    (by simp [Text.nonBlank?_of_forall inked restUnbroken]))
  have again : Scalar.ofText core = Scalar.ofText rest := by
    rw [Text.eq_trim_of_nonBlank? valued, Scalar.ofText_trim, Scalar.ofText_toText single]
  have unspaced : ' ' ∉ left ++ operator.symbol ++ (Scalar.ofText rest).toText := by
    rw [List.mem_append, List.mem_append, not_or, not_or]
    refine ⟨⟨?_, ?_⟩, ?_⟩
    · exact fun inside => by cases leftUnbroken ' ' inside
    · cases operator <;> decide
    · exact Scalar.not_mem_toText_ofText (by decide) single
        fun inside => by cases restUnbroken ' ' inside
  change ofText ((Attribute.ofText left).toText ++ _ ++ _) = _
  rw [Attribute.toText_ofText, ofText_of_unspaced unspaced,
    ofComparison_append plain (read?_symbol_toText read restUnbroken single) named valued, again]

/-- A membership test is cut at the same word when it is written. -/
theorem ofText_toText_of_cut {text : Text} (tidy : IsTidy text) {operator : Membership}
    {left list : Text} (found : cut (spaced operator) text = some (left, list))
    (first : operator = .member → ¬ spaced .notMember <:+: text) {atom : Atom}
    (decoded : ofMembership operator left list text = .ok atom) (exact : atom.IsExact) :
    ofText atom.toText = .ok atom := by
  obtain ⟨name, inner, named, listed, rfl⟩ := ofMembership_eq_ok decoded
  have shape : text = left ++ spaced operator ++ list := Text.append_of_cut found
  have core : Text.IsCore left := by
    have split : text = left ++ ' ' :: (operator.word ++ ' ' :: list) := by simp [shape, spaced]
    rw [split] at tidy
    exact tidy.isCore_left
  obtain rfl : left = name := Option.some.inj (core.nonBlank?_eq.symm.trans named)
  have inside : inner <:+: text := by
    have listed : inner <:+: list := by
      refine List.IsInfix.trans ?_ (Text.trim_infix list)
      rw [Text.between?_eq_some_iff.mp listed]
      exact ⟨['('], [')'], by simp⟩
    exact listed.trans ⟨left ++ spaced operator, [], by simp [shape]⟩
  have clear : operator = .member → ¬ spaced .notMember <:+:
      left ++ spaced operator ++ '(' :: (Scalar.listText (literals inner) ++ [')']) := by
    intro is
    rw [Text.infix_append_cons_iff (by decide), Text.infix_append_cons_iff (by decide), not_or,
      not_or]
    refine ⟨fun before => first is (before.trans ⟨[], list, by simp [shape]⟩), fun within => ?_,
      by decide⟩
    exact first is ((infix_of_infix_listText (by decide) (by decide) exact within).trans inside)
  have text : toText ⟨Attribute.ofText left, .search operator (literals inner)⟩ =
      left ++ spaced operator ++ '(' :: (Scalar.listText (literals inner) ++ [')']) := by
    simp [toText, Attribute.toText_ofText, spaced]
  rw [text, ofText_of_cut named (Text.cut_append_of_cut found _) clear, literals_listText exact]

end Atom

end DataCondition
