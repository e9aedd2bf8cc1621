import DataCondition.Proofs.Token.Membership

/-!
# The lists of membership tests

After `in` and `not in` a list is kept as it is written. After `not_in` it is kept only where
folding does not change its text.
-/

namespace DataCondition

open Text (isParenthesis)

namespace Token

theorem membershipText_inj {subject : Text} {operator : Membership} {words others : List Text} :
    membershipText subject operator words = membershipText subject operator others ↔
      compact words = compact others := by
  simp [membershipText]

end Token

namespace Spelling

/-- Whether a membership test is one token that has the list as it is written. -/
def KeepsList (spelling : Spelling) (subject : Word.Plain) (list : Text) : Prop :=
  Condition.tokens (spelling.test subject list) =
    .ok [.atom (Token.membershipText subject spelling.operator (Text.words list))]

instance (spelling : Spelling) (subject : Word.Plain) (list : Text) :
    Decidable (spelling.KeepsList subject list) :=
  inferInstanceAs (Decidable (_ = _))

variable {list : Text} (flat : ∀ char ∈ list, isParenthesis char = false)

include flat

theorem listWords_of_steady (spelling : Spelling)
    (steady : ∀ word ∈ Text.words list, Word.IsSteady word) :
    spelling.listWords list = Text.words list := by
  cases spelling with
  | member => rfl
  | negatedMember => rfl
  | notMember => exact Condition.words_of_steady flat steady

/--
A membership test is always one token. Its list is kept as it is written exactly if the test is not
spelled with `not_in` or the list has the same text after folding; so it is for every spelling where
the words of the list are steady.
-/
theorem keepsList_iff (subject : Word.Plain) (spelling : Spelling) :
    Condition.tokens (spelling.test subject list) =
        .ok [.atom (Token.membershipText subject spelling.operator (spelling.listWords list))] ∧
      (spelling.KeepsList subject list ↔ (spelling = .notMember →
        Token.compact (Condition.words list) = Token.compact (Text.words list))) ∧
      ((∀ word ∈ Text.words list, Word.IsSteady word) → spelling.KeepsList subject list) := by
  have tokens := tokens_test flat subject spelling
  have kept : spelling.KeepsList subject list ↔
      Token.compact (spelling.listWords list) = Token.compact (Text.words list) := by
    rw [KeepsList, tokens, ← @Token.membershipText_inj subject spelling.operator]
    simp
  refine ⟨tokens, ?_, fun steady => ?_⟩
  · rw [kept]
    cases spelling <;> simp [listWords]
  · rw [kept, listWords_of_steady flat spelling steady]

omit flat in
/-- The list of `a not_in (b , c>=d)` is kept, for its words are steady. -/
theorem keepsList_of_comparison :
    let list : Text := ['b', ' ', ',', ' ', 'c', '>', '=', 'd']
    (∀ char ∈ list, isParenthesis char = false) ∧ (∀ word ∈ Text.words list, Word.IsSteady word) ∧
      Spelling.notMember.KeepsList ⟨['a'], by decide⟩ list := by
  intro list
  have flat : ∀ char ∈ list, isParenthesis char = false := by simp [list, isParenthesis]
  have b : Word.IsSteady ['b'] := .reference (by decide) (by decide) (by decide) (by decide)
  have comma : Word.IsSteady [','] := .reference (by decide) (by decide) (by decide) (by decide)
  have comparison : Word.IsSteady ['c', '>', '=', 'd'] :=
    @Word.IsSteady.comparison ['c'] ['d'] (by decide) .greaterEqual (by decide)
  have steady : ∀ word ∈ Text.words list, Word.IsSteady word := by
    change ∀ word ∈ [['b'], [','], ['c', '>', '=', 'd']], Word.IsSteady word
    simp [b, comma, comparison]
  exact ⟨flat, steady, (keepsList_iff flat ⟨['a'], by decide⟩ .notMember).2.2 steady⟩

omit flat in
/-- In `a not_in (is)` the list is not kept: its word becomes `=`. -/
theorem not_keepsList_copula : ¬ Spelling.notMember.KeepsList ⟨['a'], by decide⟩ ['i', 's'] := by
  decide +kernel

end Spelling

end DataCondition
