import DataCondition.Proofs.Condition.Redecoding

/-!
# Words and tests are kept apart by blanks and parentheses

Normal words hold no blanks, and parentheses are words of their own. The text of a test holds blanks
and parentheses only together: it has neither, or it has a list.
-/

namespace DataCondition

namespace Token

open Text (isBlank isParenthesis)

/-- A test without parentheses is one word, and one without blanks has no list. -/
theorem Tests.plain_iff_unbroken {words : List Text} {text : Text} (tests : Tests words text)
    (normal : ∀ word ∈ words, Word.IsNormal word) :
    (∀ char ∈ text, isParenthesis char = false) ↔ ∀ char ∈ text, isBlank char = false := by
  cases tests with
  | plain role =>
      have solid := isSolid_of_plain (normal text (List.mem_singleton_self text)) role
      exact iff_of_true solid.plain solid.unbroken
  | @membership words subject before operator items unclosed =>
      have opens : '(' ∈ membershipText subject operator items := by simp [membershipText]
      have spaced : ' ' ∈ membershipText subject operator items := by simp [membershipText]
      refine iff_of_false (fun plain => ?_) (fun unbroken => ?_)
      · cases plain '(' opens
      · cases unbroken ' ' spaced

end Token

namespace Condition

open Text (IsTidy isBlank isParenthesis)

/--
No normal word is empty, holds a blank, or holds a parenthesis without being that parenthesis. The
text of every test is there, its blanks are single spaces between other characters, and it holds
blanks exactly if it holds parentheses.
-/
theorem isTidy_of_tokens (condition : Text) :
    (∀ word ∈ Condition.words condition, word ≠ [] ∧ (∀ char ∈ word, isBlank char = false) ∧
      (word = ['('] ∨ word = [')'] ∨ ∀ char ∈ word, isParenthesis char = false)) ∧
    ∀ tokens, Condition.tokens condition = .ok tokens → ∀ text, .atom text ∈ tokens →
      IsTidy text ∧
      ((∀ char ∈ text, isParenthesis char = false) ↔ ∀ char ∈ text, isBlank char = false) := by
  constructor
  · intro word member
    have normal := isNormal_of_mem_words member
    exact ⟨normal.nonempty, normal.unbroken, normal.imp_right (Or.imp_right Word.IsSolid.plain)⟩
  · intro tokens accepted text member
    obtain ⟨words, tests, normal⟩ := exists_tests_of_tokens accepted member
    exact ⟨tests.isTidy normal, tests.plain_iff_unbroken normal⟩

/-- Of the tests of `(a is  b) or d not in ( x ,  y z )` only the first holds no blank. -/
theorem isTidy_of_tokens_list :
    ∃ tokens, Condition.tokens "(a is  b) or d not in ( x ,  y z )".toList = .ok tokens ∧
      .atom "a=b".toList ∈ tokens ∧ .atom "d not_in (x,y z)".toList ∈ tokens ∧
      IsTidy "d not_in (x,y z)".toList ∧ (∀ char ∈ "a=b".toList, isBlank char = false) ∧
      ¬ ∀ char ∈ "d not_in (x,y z)".toList, isBlank char = false := by
  have accepted : Condition.tokens "(a is  b) or d not in ( x ,  y z )".toList = .ok
      [.opening, .atom "a=b".toList, .closing, .connective .or,
        .atom "d not_in (x,y z)".toList] :=
    Error.eq_ok_of_toOption (by decide +kernel)
  have each := (isTidy_of_tokens "(a is  b) or d not in ( x ,  y z )".toList).2 _ accepted
  obtain ⟨-, unbroken⟩ := each "a=b".toList (by simp)
  obtain ⟨tidy, spaced⟩ := each "d not_in (x,y z)".toList (by simp)
  refine ⟨_, accepted, by simp, by simp, tidy, unbroken.mp (by simp [isParenthesis]), ?_⟩
  intro none
  cases spaced.mpr none '(' (by simp)

end Condition

end DataCondition
