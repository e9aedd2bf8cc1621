import DataCondition.Proofs.Token.Enclosed
import DataCondition.Proofs.Token.Folding

/-!
# Membership tests as they are spelled

The list after `in` is kept word by word, whether or not `not` stands before. The list after
`not_in` is not recognized as one while words are folded, so that its words are those of a condition
of its own.
-/

namespace DataCondition

open Text (isParenthesis)
open Word (Folds IsPlain folds_free folds_listed opening closing rawWords)

/-- How a membership word is spelled in a condition. -/
inductive Spelling where
  /-- The word `in`. -/
  | member
  /-- The words `not` and `in`. -/
  | negatedMember
  /-- The word `not_in`. -/
  | notMember
deriving DecidableEq, Repr

namespace Spelling

/-- The membership that is meant. -/
def operator : Spelling → Membership
  | .member => .member
  | .negatedMember | .notMember => .notMember

/-- The words of a spelling. -/
def words : Spelling → List Text
  | .member => [Membership.member.word]
  | .negatedMember => [Word.negation, Membership.member.word]
  | .notMember => [Membership.notMember.word]

/-- A spelling as it is written. -/
def text (spelling : Spelling) : Text := [' '].intercalate spelling.words

/-- A membership test as it is written, with a list between parentheses. -/
def test (spelling : Spelling) (subject list : Text) : Text :=
  subject ++ ' ' :: spelling.text ++ ' ' :: '(' :: list ++ [')']

/-- The pieces of the words of a list. -/
def listPieces (list : Text) : Spelling → List Word.Piece
  | .member | .negatedMember => (Text.words list).map .listed
  | .notMember => (Text.words list).flatMap Word.pieces

/-- The words of a list in normal form. -/
def listWords (list : Text) : Spelling → List Text
  | .member | .negatedMember => Text.words list
  | .notMember => Condition.words list

end Spelling

section Flat

variable {list : Text} (flat : ∀ char ∈ list, isParenthesis char = false)

include flat

theorem Text.not_mem_words {char : Char} (parenthesis : isParenthesis char) :
    [char] ∉ Text.words list :=
  fun member => (Word.isSolid_of_mem_words flat member).not_mem parenthesis List.mem_cons_self

/-- A condition without parentheses is folded from the pieces of its words. -/
theorem Condition.words_of_flat :
    Condition.words list = Word.fold ((Text.words list).flatMap Word.pieces) := by
  have whole : rawWords list = Text.words list := by
    rw [rawWords, ← List.append_nil list, Word.spaceParentheses_append flat]
    rfl
  change Word.fold (Word.outside (rawWords list)) = _
  rw [whole, Word.outside_of_not_mem (Text.not_mem_words flat rfl)]

/-- Steady words are the normal words of a condition. -/
theorem Condition.words_of_steady (steady : ∀ word ∈ Text.words list, Word.IsSteady word) :
    Condition.words list = Text.words list := by
  rw [words_of_flat flat, (Word.folds_flatMap_pieces steady).fold_eq]

namespace Spelling

omit flat in
theorem words_text (spelling : Spelling) : Text.words spelling.text = spelling.words := by
  cases spelling <;> rfl

omit flat in
theorem isParenthesis_text (spelling : Spelling) :
    ∀ char ∈ spelling.text, isParenthesis char = false := by
  cases spelling <;> simp [text, words, Membership.word, Word.negation, isParenthesis]

theorem rawWords_test (subject : Word.Plain) (spelling : Spelling) :
    rawWords (spelling.test subject list) =
      subject.val :: (spelling.words ++ opening :: (Text.words list ++ [closing])) := by
  let front := subject ++ ' ' :: (spelling.text ++ [' '])
  have plain : ∀ char ∈ front, isParenthesis char = false := by
    rw [List.forall_mem_append, List.forall_mem_cons, List.forall_mem_append]
    exact ⟨subject.2.isSolid.plain, rfl, spelling.isParenthesis_text,
      List.forall_mem_singleton.mpr rfl⟩
  have words : Text.words front = subject.val :: spelling.words := by
    rw [Text.words_append_blank _ _ Text.isBlank_space,
      Text.words_append_blank _ _ Text.isBlank_space, words_text,
      Text.words_of_forall subject.2.nonempty subject.2.isSolid.unbroken]
    exact congrArg _ (List.append_nil _)
  have shape : spelling.test subject list = front ++ '(' :: (list ++ [')']) := by
    simp [test, front]
  rw [shape, Word.rawWords_append plain (Word.isApart_parenthesis rfl _), words,
    Word.rawWords_parenthesis rfl, Word.rawWords_append flat (Word.isApart_parenthesis rfl _),
    Word.rawWords_parenthesis rfl]
  rfl

/-- Only the list after `in` is seen as a list while words are cut. -/
theorem outside_test (subject : Word.Plain) (spelling : Spelling) :
    Word.outside (rawWords (spelling.test subject list)) =
      (subject.val :: spelling.words).map .free ++
        .free opening :: (spelling.listPieces list ++ [.free closing]) := by
  have unclosed : closing ∉ Text.words list := Text.not_mem_words flat rfl
  have unopened : opening ∉ Text.words list := Text.not_mem_words flat rfl
  have alone : Word.pieces subject = [.free subject.val] :=
    Word.pieces_of_isReference subject.2.nonempty subject.2.reference
  have other : Membership.member.word ≠ subject.val := subject.2.ne_member.symm
  rw [rawWords_test flat]
  cases spelling with
  | member =>
      have cut := @Word.outside_list [subject.val] _ (by simpa using other) unclosed
      rw [List.flatMap_singleton, alone] at cut
      exact cut
  | negatedMember =>
      have absent : Membership.member.word ∉ [subject.val, Word.negation] := by
        simpa [other] using show Membership.member.word ≠ Word.negation by decide
      have cut := @Word.outside_list _ _ absent unclosed
      rw [List.flatMap_cons, alone] at cut
      exact cut
  | notMember =>
      have absent : Membership.member.word ∉ [subject.val, Membership.notMember.word, opening] := by
        simpa [other] using show _ ∧ _ by decide
      have cut := Word.outside_append absent (Text.words list ++ [closing])
      have rest : Word.outside (Text.words list ++ [closing]) =
          (Text.words list).flatMap Word.pieces ++ [.free closing] := by
        rw [Word.outside_of_not_mem, List.flatMap_append]
        · rfl
        · simpa [unopened] using show opening ≠ closing by decide
      rw [List.flatMap_cons, alone, rest] at cut
      exact cut

theorem folds_listPieces (spelling : Spelling) :
    Folds (.free opening :: (spelling.listPieces list ++ [.free closing]))
      (opening :: (spelling.listWords list ++ [closing])) := by
  have kept : Folds (.free opening :: ((Text.words list).map .listed ++ [.free closing]))
      (opening :: (Text.words list ++ [closing])) := by
    have opened : Folds [.free opening] [opening] := fun _ => rfl
    have closed : Folds [.free closing] [closing] := fun _ => rfl
    exact opened.append ((folds_listed _).append closed)
  cases spelling with
  | member => exact kept
  | negatedMember => exact kept
  | notMember =>
      rw [listWords, Condition.words_of_flat flat]
      exact Word.folds_enclosed _

/-- The normal words of a membership test; only the list after `not_in` is folded. -/
theorem words_test (subject : Word.Plain) (spelling : Spelling) :
    Condition.words (spelling.test subject list) =
      subject.val :: spelling.operator.word :: opening ::
        (spelling.listWords list ++ [closing]) := by
  have first : Folds [.free subject.val] [subject.val] := folds_free subject.2
  have word : Folds (spelling.words.map .free) [spelling.operator.word] := by
    cases spelling <;> exact fun _ => rfl
  have all := first.append (word.append (folds_listPieces flat spelling))
  change Word.fold (Word.outside (rawWords (spelling.test subject list))) = _
  rw [outside_test flat]
  exact all.fold_eq

theorem closing_not_mem_listWords (spelling : Spelling) :
    closing ∉ spelling.listWords list := by
  have kept : closing ∉ Text.words list := Text.not_mem_words flat rfl
  cases spelling with
  | member => exact kept
  | negatedMember => exact kept
  | notMember =>
      intro member
      have inside : ')' ∈ (Condition.words list).flatten :=
        List.mem_flatten.mpr ⟨_, member, List.mem_cons_self⟩
      have found : ')' ∈ Text.parentheses (Condition.words list).flatten :=
        List.mem_filter.mpr ⟨inside, rfl⟩
      rw [Condition.parentheses_words, Text.parentheses_eq_nil flat] at found
      cases found

/-- A membership test is one token, with the words of its list in normal form. -/
theorem tokens_test (subject : Word.Plain) (spelling : Spelling) :
    Condition.tokens (spelling.test subject list) =
      .ok [.atom (Token.membershipText subject spelling.operator (spelling.listWords list))] := by
  have role := Item.role_of_not_mem subject.2.not_mem_reserved
  obtain ⟨after, ends⟩ := @Item.readList_append 3 2 subject spelling.operator [] []
    (spelling.listWords list) (closing_not_mem_listWords flat spelling) []
  rw [Condition.tokens, words_test flat, Item.read_membership role, ends, Token.read]
  rfl

end Spelling

end Flat

end DataCondition
