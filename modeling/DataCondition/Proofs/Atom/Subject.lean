import DataCondition.Atom.Reading
import DataCondition.Atom.Writing
import DataCondition.Proofs.Error
import DataCondition.Proofs.Text.Cut
import DataCondition.Proofs.Token.Reading

/-!
# The subjects of tests

A test is read from a word with lists after it. Its subject is what stands before the place where
its text is cut, and that need not be the word.
-/

namespace DataCondition

theorem Attribute.toText_ofText (text : Text) : (Attribute.ofText text).toText = text := by
  unfold Attribute.ofText
  split
  next scope name found =>
    rw [Text.append_of_cut found, Attribute.toText]
    simp
  next => rfl

namespace Atom

open Text
open Word (IsSolid)

/-- A reference holds no blank, no parenthesis and no character of a comparison symbol. -/
def IsReference (text : Text) : Prop :=
  ∀ char ∈ text, isBlank char = false ∧ isParenthesis char = false ∧ startsSymbol char = false

instance (text : Text) : Decidable (IsReference text) :=
  List.decidableBAll _ text

/--
A direct text is a comparison, or a reference with a membership word right after it; where that
word is `in`, the word `not_in` stands nowhere.
-/
def Direct (text : Text) : Prop :=
  ' ' ∉ text ∨ ∃ subject operator list, text = subject ++ spaced operator ++ list ∧
    IsReference subject ∧ (operator = .member → ¬ spaced .notMember <:+: text)

theorem subject?_eq_ok {left text : Text} {subject : Attribute}
    (decoded : subject? left text = .ok subject) :
    ∃ name, nonBlank? left = some name ∧ subject = Attribute.ofText name := by
  unfold subject? at decoded
  split at decoded
  next name found => exact ⟨name, found, (Except.ok.inj decoded).symm⟩
  next => cases decoded

/-- A membership test is decoded from a name and a list in parentheses. -/
theorem ofMembership_eq_ok {operator : Membership} {left list text : Text} {atom : Atom}
    (decoded : ofMembership operator left list text = .ok atom) :
    ∃ name inner, nonBlank? left = some name ∧ between? '(' ')' (trim list) = some inner ∧
      atom = ⟨Attribute.ofText name, .search operator (literals inner)⟩ := by
  unfold ofMembership at decoded
  split at decoded
  next => cases decoded
  next inner found =>
    obtain ⟨subject, read, last⟩ := Error.bind_eq_ok.mp decoded
    obtain ⟨name, named, rfl⟩ := subject?_eq_ok read
    exact ⟨name, inner, named, found, (Except.ok.inj last).symm⟩

/-- A comparison is decoded from a name, a symbol and a literal. -/
theorem ofComparison_eq_ok {text : Text} {atom : Atom} (decoded : ofComparison text = .ok atom) :
    ∃ name operator rest literal,
      nonBlank? (text.takeWhile fun char => !startsSymbol char) = some name ∧
      Comparison.read? (text.dropWhile fun char => !startsSymbol char) = some (operator, rest) ∧
      nonBlank? rest = some literal ∧
      atom = ⟨Attribute.ofText name, .compare operator (Scalar.ofText literal)⟩ := by
  unfold ofComparison at decoded
  split at decoded
  next => cases decoded
  split at decoded
  next => cases decoded
  next operator rest read =>
    split at decoded
    next => cases decoded
    next literal valued =>
      obtain ⟨subject, found, last⟩ := Error.bind_eq_ok.mp decoded
      obtain ⟨name, named, rfl⟩ := subject?_eq_ok found
      exact ⟨name, operator, rest, literal, named, read, valued, (Except.ok.inj last).symm⟩

theorem toText_ofText_of_nonBlank? {left name : Text} (found : nonBlank? left = some name) :
    (Attribute.ofText name).toText = trim left := by
  rw [Attribute.toText_ofText, eq_trim_of_nonBlank? found]

theorem subject_of_ofMembership {operator : Membership} {left list text : Text} {atom : Atom}
    (decoded : ofMembership operator left list text = .ok atom) :
    atom.subject.toText = trim left := by
  obtain ⟨name, inner, named, -, rfl⟩ := ofMembership_eq_ok decoded
  exact toText_ofText_of_nonBlank? named

theorem subject_of_ofComparison {text : Text} {atom : Atom}
    (decoded : ofComparison text = .ok atom) :
    atom.subject.toText = trim (text.takeWhile fun char => !startsSymbol char) := by
  obtain ⟨name, operator, rest, literal, named, -, -, rfl⟩ := ofComparison_eq_ok decoded
  exact toText_ofText_of_nonBlank? named

theorem cut_spaced_eq_none_iff {operator : Membership} {text : Text} :
    cut (spaced operator) text = none ↔ ¬ spaced operator <:+: text :=
  cut_eq_none_iff (List.cons_ne_nil _ _)

/-- A text is decoded as a membership test where it can be cut for one, else as a comparison. -/
theorem ofText_eq_ok {text : Text} {atom : Atom} (decoded : ofText text = .ok atom) :
    (∃ operator left list, cut (spaced operator) text = some (left, list) ∧
      (operator = .member → ¬ spaced .notMember <:+: text) ∧
      ofMembership operator left list text = .ok atom) ∨
    ((∀ operator, ¬ spaced operator <:+: text) ∧ ofComparison text = .ok atom) := by
  unfold ofText at decoded
  split at decoded
  next left list found =>
    refine .inl ⟨.notMember, left, list, found, ?_, decoded⟩
    rintro ⟨⟩
  next uncut =>
    rw [cut_spaced_eq_none_iff] at uncut
    split at decoded
    next left list found => exact .inl ⟨.member, left, list, found, fun _ => uncut, decoded⟩
    next uncut' =>
      rw [cut_spaced_eq_none_iff] at uncut'
      refine .inr ⟨fun operator => ?_, decoded⟩
      cases operator with
      | member => exact uncut'
      | notMember => exact uncut

/-- A text with a membership word between spaces is decoded from where it is cut. -/
theorem exists_cut_of_spaced {text : Text} {operator : Membership}
    (within : spaced operator <:+: text) {atom : Atom} (decoded : ofText text = .ok atom) :
    ∃ operator left list, cut (spaced operator) text = some (left, list) ∧
      (operator = .member → ¬ spaced .notMember <:+: text) ∧
      ofMembership operator left list text = .ok atom :=
  (ofText_eq_ok decoded).resolve_right fun compared => compared.1 operator within

theorem space_not_mem {word : Text} (solid : IsSolid word) : ' ' ∉ word := by
  intro inside
  simpa [isBlank_space] using solid.unbroken ' ' inside

/-- What has no space is read as a comparison. -/
theorem ofText_of_unspaced {text : Text} (unspaced : ' ' ∉ text) :
    ofText text = ofComparison text := by
  have uncut : ∀ operator, cut (spaced operator) text = none := by
    intro operator
    rw [cut_spaced_eq_none_iff]
    exact fun within => unspaced (within.subset List.mem_cons_self)
  rw [ofText, uncut, uncut]

/-- A lone word is read as a comparison. -/
theorem ofText_of_isSolid {word : Text} (solid : IsSolid word) :
    ofText word = ofComparison word :=
  ofText_of_unspaced (space_not_mem solid)

/-- The subject of a lone word is a reference. -/
theorem isReference_of_isSolid {word : Text} (solid : IsSolid word) {atom : Atom}
    (decoded : ofText word = .ok atom) : IsReference atom.subject.toText := by
  rw [ofText_of_isSolid solid] at decoded
  have kept : ∀ char ∈ word.takeWhile fun char => !startsSymbol char, char ∈ word :=
    fun _ inside => (List.takeWhile_prefix _).subset inside
  rw [subject_of_ofComparison decoded,
    trim_of_forall fun char inside => solid.unbroken char (kept char inside)]
  intro char inside
  have before := List.all_eq_true.mp List.all_takeWhile char inside
  exact ⟨solid.unbroken char (kept char inside), solid.plain char (kept char inside),
    by simpa using before⟩

section Spaced

variable {word : Text} (solid : IsSolid word)

include solid

/-- Unless `not_in` stands later on, the text is cut at its first membership word. -/
theorem subject_eq_word {operator : Membership} {list : Text} {atom : Atom}
    (first : operator = .member → ¬ spaced .notMember <:+: word ++ spaced operator ++ list)
    (decoded : ofText (word ++ spaced operator ++ list) = .ok atom) :
    atom.subject.toText = word := by
  have here : cut (spaced operator) (word ++ spaced operator ++ list) = some (word, list) := by
    rw [List.append_assoc]
    exact cut_append_cons_of_not_mem (space_not_mem solid) _ _
  rw [← trim_of_forall solid.unbroken]
  cases operator with
  | notMember =>
      rw [ofText, here] at decoded
      exact subject_of_ofMembership decoded
  | member =>
      rw [ofText, cut_spaced_eq_none_iff.mpr (first rfl), here] at decoded
      exact subject_of_ofMembership decoded

/-- Where `not_in` stands after `in`, the subject reaches beyond `in`. -/
theorem not_isReference_of_infix {list : Text} {atom : Atom}
    (later : spaced .notMember <:+: word ++ spaced .member ++ list)
    (decoded : ofText (word ++ spaced .member ++ list) = .ok atom) :
    ¬ IsReference atom.subject.toText := by
  have moved : cut (spaced .notMember) (word ++ spaced .member ++ list) =
      (cut (spaced .notMember) ('n' :: ' ' :: list)).map
        fun parts => (word ++ ' ' :: 'i' :: parts.1, parts.2) := by
    rw [List.append_assoc, spaced, List.cons_append,
      cut_append_of_not_mem (space_not_mem solid)]
    simp [cut, spaced, Membership.word, Option.map_map, Function.comp_def]
  cases found : cut (spaced .notMember) (word ++ spaced .member ++ list) with
  | none => exact absurd later (cut_spaced_eq_none_iff.mp found)
  | some parts =>
      rw [found] at moved
      obtain ⟨⟨before, after⟩, -, rfl⟩ := Option.map_eq_some_iff.mp moved.symm
      rw [ofText, found] at decoded
      rw [subject_of_ofMembership decoded]
      intro reference
      have letter : isBlank 'i' = false := rfl
      have space := space_mem_trim before solid.nonempty solid.unbroken letter
      simpa [isBlank_space] using (reference ' ' space).1

/-- The parts of a text with a word before its first space are unique. -/
theorem direct_spaced_iff {operator : Membership} {list : Text} :
    Direct (word ++ spaced operator ++ list) ↔ IsReference word ∧
      (operator = .member → ¬ spaced .notMember <:+: word ++ spaced operator ++ list) := by
  constructor
  · rintro (unspaced | ⟨subject, operator', list', shape, reference, first⟩)
    · exact absurd (by simp [spaced]) unspaced
    · have absent : ' ' ∉ subject := by
        intro inside
        simpa [isBlank_space] using (reference ' ' inside).1
      have parts := shape
      rw [List.append_assoc, List.append_assoc, spaced, spaced, List.cons_append, List.cons_append,
        List.cons_append, List.cons_append] at parts
      obtain ⟨rfl, rest⟩ := append_cons_inj (space_not_mem solid) absent parts
      have same : operator = operator' := by
        cases operator <;> cases operator' <;> simp [Membership.word] at rest ⊢
      exact ⟨reference, same ▸ first⟩
  · rintro ⟨reference, first⟩
    exact .inr ⟨word, operator, list, rfl, reference, first⟩

end Spaced

end Atom

namespace Token

open Word (IsSolid IsNormal)

/-- The text of a test starts with a word, which membership words and lists may follow. -/
theorem Tests.exists_word {words : List Text} {text : Text} (tests : Tests words text)
    (normal : ∀ word ∈ words, IsNormal word) : ∃ word, IsSolid word ∧
      (text = word ∨ ∃ operator list, text = word ++ Atom.spaced operator ++ list) := by
  induction tests with
  | @plain word role =>
      have solid := isSolid_of_plain (normal word (List.mem_singleton_self word)) role
      exact ⟨word, solid, .inl rfl⟩
  | @membership words subject before operator items unclosed induction =>
      rw [List.forall_mem_append] at normal
      obtain ⟨word, solid, rfl | ⟨first, list, rfl⟩⟩ := induction normal.1
      · exact ⟨subject, solid, .inr ⟨operator, '(' :: compact items ++ [')'],
          by simp [membershipText, Atom.spaced]⟩⟩
      · exact ⟨word, solid, .inr ⟨first,
          list ++ ' ' :: operator.word ++ ' ' :: '(' :: compact items ++ [')'],
          by simp [membershipText]⟩⟩

/-- The subject of a test is a reference exactly if its text is direct. -/
theorem Tests.isReference_iff_direct {words : List Text} {text : Text} (tests : Tests words text)
    (normal : ∀ word ∈ words, IsNormal word) {atom : Atom} (decoded : Atom.ofText text = .ok atom) :
    Atom.IsReference atom.subject.toText ↔ Atom.Direct text := by
  obtain ⟨word, solid, rfl | ⟨operator, list, rfl⟩⟩ := tests.exists_word normal
  · exact iff_of_true (Atom.isReference_of_isSolid solid decoded)
      (.inl (Atom.space_not_mem solid))
  · rw [Atom.direct_spaced_iff solid]
    by_cases first : operator = .member →
        ¬ Atom.spaced .notMember <:+: word ++ Atom.spaced operator ++ list
    · rw [Atom.subject_eq_word solid first decoded, and_iff_left first]
    · obtain ⟨rfl, later⟩ : operator = .member ∧
          Atom.spaced .notMember <:+: word ++ Atom.spaced operator ++ list := by
        simpa [Classical.not_imp] using first
      exact iff_of_false (Atom.not_isReference_of_infix solid later decoded)
        fun direct => direct.2 rfl later

end Token

end DataCondition
