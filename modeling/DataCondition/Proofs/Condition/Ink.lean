import DataCondition.Proofs.Error
import DataCondition.Proofs.Token.Joined
import DataCondition.Proofs.Token.Settled
import DataCondition.Proofs.Token.Symbols

/-!
# What tokens keep of a condition

Words are joined and cut, and membership tests take the tests before them and the lists after them.
Nothing but blanks is lost or put in by this, unless words are renamed.
-/

namespace DataCondition

namespace Condition

open Text (ink)
open Word (copula negation spaceComparisons spaceParentheses)

/-- Normal words hold no blanks. -/
theorem ink_flatten_words (condition : Text) :
    ink (Condition.words condition).flatten = (Condition.words condition).flatten := by
  apply Text.ink_of_forall
  intro char member
  obtain ⟨word, isWord, inside⟩ := List.mem_flatten.mp member
  exact (isNormal_of_mem_words isWord).unbroken char inside

theorem ink_outside (condition : Text) :
    ink ((Word.outside (Text.words (spaceParentheses condition))).map Word.Piece.word).flatten =
      ink condition := by
  rw [(Word.piecewise_outside _).ink_eq, Text.flatten_words, Text.ink_ink,
    Word.ink_spaceParentheses]

/-- What a membership test takes is written in it, in the same order. -/
theorem ink_join {condition : Text} {tokens : List Token}
    (accepted : Condition.tokens condition = .ok tokens) :
    ink (Token.join tokens) = (Condition.words condition).flatten := by
  have kept := (consumed_of_tokens accepted).ink_eq
  rwa [List.reverse_reverse, ink_flatten_words] at kept

section Unrenamed

variable {condition : Text}
  (noCopula : copula ∉ Text.words (spaceComparisons (spaceParentheses condition)))
  (noNegation : negation ∉ Text.words (spaceComparisons (spaceParentheses condition)))

include noCopula noNegation

/-- If neither `is` nor `not` is a word, the normal words are the condition without its blanks. -/
theorem flatten_words_eq_ink : (Condition.words condition).flatten = ink condition := by
  have free : ∀ part, .free part ∈ Word.outside (Text.words (spaceParentheses condition)) →
      part ∈ Text.words (spaceComparisons (spaceParentheses condition)) := by
    intro part member
    rw [← Word.flatMap_words_spaceComparisons]
    exact Word.mem_of_free_mem_outside _ member
  rw [← ink_outside, ← Word.written_fold (noCopula ∘ free _) (noNegation ∘ free _)]
  exact (ink_flatten_words condition).symm

/--
If neither `is` nor `not` is a word, the normal words of a condition are all of it but its blanks,
in order. So are its tokens, if it has any.
-/
theorem ink_of_tokens : (Condition.words condition).flatten = ink condition ∧
    ∀ tokens, Condition.tokens condition = .ok tokens →
      ink (Token.join tokens) = ink condition := by
  have kept := flatten_words_eq_ink noCopula noNegation
  exact ⟨kept, fun tokens accepted => (ink_join accepted).trans kept⟩

end Unrenamed

/-- The tokens of `(a >1 or b in ( x , y z)) and c` are all of it but its blanks. -/
theorem ink_of_tokens_list :
    (Condition.words "(a >1 or b in ( x , y z)) and c".toList).flatten =
        "(a>1orbin(x,yz))andc".toList ∧
      ∃ tokens, Condition.tokens "(a >1 or b in ( x , y z)) and c".toList = .ok tokens ∧
        ink (Token.join tokens) = "(a>1orbin(x,yz))andc".toList := by
  have accepted : Condition.tokens "(a >1 or b in ( x , y z)) and c".toList = .ok
      [.opening, .atom "a>1".toList, .connective .or, .atom "b in (x,y z)".toList, .closing,
        .connective .and, .atom "c".toList] :=
    Error.eq_ok_of_toOption (by decide +kernel)
  have inked : ink "(a >1 or b in ( x , y z)) and c".toList = "(a>1orbin(x,yz))andc".toList := by
    decide +kernel
  obtain ⟨words, tokens⟩ := @ink_of_tokens "(a >1 or b in ( x , y z)) and c".toList
    (by decide +kernel) (by decide +kernel)
  rw [inked] at words tokens
  exact ⟨words, _, accepted, tokens _ accepted⟩

end Condition

end DataCondition
