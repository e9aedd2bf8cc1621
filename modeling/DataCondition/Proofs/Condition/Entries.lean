import DataCondition.Proofs.Atom.Membership
import DataCondition.Proofs.Condition.Tree
import DataCondition.Proofs.Token.Membership

/-!
# The entries of membership tests

A membership test that is written with entries decodes to its subject, its membership and the
literals of the entries. Only where `not_in` stands between two words of an entry after `in`, the
test is refused.
-/

namespace DataCondition

/-- How a membership is spelled, with the words `in` and `not` only. -/
def Membership.spelling : Membership → Spelling
  | .member => .member
  | .notMember => .negatedMember

namespace Condition

/-- The one token of a membership test with entries. -/
theorem tokens_of_entries (subject : Word.Plain) (operator : Membership) (entries : List Entry) :
    tokens (operator.spelling.test subject (Entry.row entries)) = .ok
      [.atom (subject ++ Atom.spaced operator ++ '(' :: (Entry.tightRow entries ++ [')']))] := by
  have means : operator.spelling.operator = operator := by cases operator <;> rfl
  have kept : operator.spelling.listWords (Entry.row entries) =
      Text.words (Entry.row entries) := by
    cases operator <;> rfl
  have text : Token.membershipText subject operator (Text.words (Entry.row entries)) =
      subject ++ Atom.spaced operator ++ '(' :: (Entry.tightRow entries ++ [')']) := by
    simp [Token.membershipText, Atom.spaced, Entry.compact_words_row]
  rw [Spelling.tokens_test (Entry.isParenthesis_row entries), means, kept, text]

/--
A membership test with entries has a lone test as its tree, which decodes to the subject and the
literals of the entries, in order; unless `not_in` misleads the reader, who then finds no list.
-/
theorem tree_of_entries (subject : Word.Plain) (operator : Membership) (entries : List Entry) :
    let condition := operator.spelling.test subject (Entry.row entries)
    let text : Text :=
      subject ++ ' ' :: operator.word ++ ' ' :: '(' :: Entry.tightRow entries ++ [')']
    let lone : Node := ⟨firstId, none, .atom text, []⟩
    (¬ Entry.Misleads operator entries → Condition.tree condition = .ok lone ∧
      lone.readAtoms = .ok [⟨Attribute.ofText subject,
        .search operator (entries.map fun entry => Scalar.ofText entry.text)⟩]) ∧
    (Entry.Misleads operator entries →
      Condition.tree condition = .error (.invalidAtom .unparenthesisedList text)) := by
  intro condition text lone
  have shape : text =
      subject ++ Atom.spaced operator ++ '(' :: (Entry.tightRow entries ++ [')']) := by
    simp [text, Atom.spaced]
  have solid := subject.2.isSolid
  have whole : Condition.tree condition = (Atom.ofText text).map fun _ => lone := by
    rw [tree_of_atom (tokens_of_entries subject operator entries), ← shape]
  constructor
  · intro clear
    have decoded := Atom.ofText_entries solid clear
    have atoms : lone.readAtoms = Atom.ofTexts [text] := rfl
    rw [whole, atoms, Atom.ofTexts_singleton, shape, decoded]
    exact ⟨rfl, rfl⟩
  · intro misleads
    rw [whole, shape, Atom.ofText_of_misleads solid misleads]
    rfl

/-- After `not in`, the word `not_in` misleads nobody. -/
example : (Condition.tree "a not in (b not_in c)".toList).toOption =
    some ⟨firstId, none, .atom "a not_in (b not_in c)".toList, []⟩ := by
  decide +kernel

/-- The condition `a in (b not_in c)` is refused, although its list has one entry. -/
theorem refused_entry :
    ∃ entry : Entry, entry.text = "b not_in c".toList ∧
      Membership.member.spelling.test ['a'] (Entry.row [entry]) = "a in (b not_in c)".toList ∧
      ∀ tree, Condition.tree "a in (b not_in c)".toList ≠ .ok tree := by
  let b : Word.Listed := ⟨['b'], Word.isSolid_of_all (by decide) (by decide)⟩
  let c : Word.Listed := ⟨['c'], Word.isSolid_of_all (by decide) (by decide)⟩
  let middle : Word.Listed :=
    ⟨Membership.notMember.word, Word.isSolid_of_all (by decide) (by decide)⟩
  let entry : Entry := ⟨[b, middle, c], by simp, by simp [b, middle, c, Membership.word]⟩
  have refused : (Condition.tree "a in (b not_in c)".toList).toOption = none := by decide +kernel
  refine ⟨entry, by decide +kernel, by decide +kernel, fun tree accepted => ?_⟩
  rw [accepted] at refused
  cases refused

end Condition

end DataCondition
