import DataCondition.Token.Word

/-!
# Membership lists within a condition

The words of a membership list stay as they are, while all other words are cut around comparison
symbols. A list is found by the word `in` before an opening parenthesis.
-/

namespace DataCondition

namespace Word

/-- A word of a condition, inside or outside a membership list. -/
inductive Piece where
  | free (word : Text)
  | listed (word : Text)
deriving DecidableEq, Repr

/-- A word outside a list, cut into comparison symbols and the texts between them. -/
def pieces (word : Text) : List Piece :=
  (Text.words (spaceComparisons word)).map .free

mutual

/-- The pieces of words outside a list; the word `in` before a parenthesis opens a list. -/
def outside : List Text → List Piece
  | [] => []
  | [word] => pieces word
  | word :: next :: rest =>
    if word = Membership.member.word ∧ next = opening then .free word :: .free next :: inside rest
    else pieces word ++ outside (next :: rest)

/-- The pieces of words inside a list, which ends at the first closing parenthesis. -/
def inside : List Text → List Piece
  | [] => []
  | word :: rest =>
    if word = closing then .free word :: outside rest else .listed word :: inside rest

end

end Word

end DataCondition
