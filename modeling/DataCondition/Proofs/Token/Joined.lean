import DataCondition.Proofs.Token.Reading

/-!
# Tokens written one after the other

A token has the characters of the words that it comes from, and blanks.
-/

namespace DataCondition

namespace Token

open Text

/-- Tokens written one after the other. -/
def join (tokens : List Token) : Text := tokens.flatMap toText

theorem join_append (left right : List Token) : join (left ++ right) = join left ++ join right :=
  List.flatMap_append

/-- The blanks around commas are lost, and single ones are put between words. -/
theorem ink_compact (items : List Text) : ink (compact items) = ink items.flatten := by
  have trimmed : ink ∘ trim = ink := funext ink_trim
  rw [compact, ink_intercalate, List.map_map, trimmed, ← ink_intercalate, List.intercalate_splitOn,
    ink_intercalate_gap rfl]

theorem ink_operator (operator : Membership) : ink operator.word = operator.word := by
  cases operator <;> rfl

theorem ink_membershipText (subject : Text) (operator : Membership) (items : List Text) :
    ink (membershipText subject operator items) =
      ink subject ++ (operator.word ++ ('(' :: ink items.flatten ++ [')'])) := by
  have opens : isBlank '(' = false := rfl
  have closes : isBlank ')' = false := rfl
  simp [membershipText, ink_cons, isBlank_space, opens, closes, ink_operator, ink_compact]

theorem Tests.ink_eq {words : List Text} {text : Text} (tests : Tests words text) :
    ink text = ink words.flatten := by
  induction tests with
  | plain => simp
  | membership before operator items unclosed induction =>
      have opens : ink Word.opening = ['('] := rfl
      have closes : ink Word.closing = [')'] := rfl
      rw [ink_membershipText, induction]
      simp [ink_operator, opens, closes]

theorem Spells.ink_eq {words : List Text} {token : Token} (spells : Spells words token) :
    ink token.toText = ink words.flatten := by
  cases spells with
  | atom tests => exact tests.ink_eq
  | connective link => simp [toText]
  | opening => rfl
  | closing => rfl

/-- Tokens have all that their words have, in order, if blanks do not count. -/
theorem Consumed.ink_eq {words : List Text} {done : List Token} (consumed : Consumed words done) :
    ink (join done.reverse) = ink words.flatten := by
  induction consumed with
  | nil => rfl
  | next before spells induction =>
      rw [List.reverse_cons, join_append, ink_append, induction, List.flatten_append, ink_append,
        ← spells.ink_eq]
      simp [join]

end Token

end DataCondition
