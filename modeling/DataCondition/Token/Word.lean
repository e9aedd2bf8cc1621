import DataCondition.Token.Basic

/-!
# The words of a condition as they are written

Parentheses and comparison symbols are words of their own, whether or not blanks stand around them.
-/

namespace DataCondition

namespace Word

/-- The word that opens a group or a list. -/
def opening : Text := ['(']

/-- The word that closes a group or a list. -/
def closing : Text := [')']

/-- The word `is`, a spelling of `=`. -/
def copula : Text := ['i', 's']

/-- The word `not`, which turns `is` and `in` into their opposites. -/
def negation : Text := ['n', 'o', 't']

/-- The words that are no operand of a comparison. -/
def reserved : List Text :=
  [opening, closing, Connective.and.word, Connective.or.word, Membership.member.word,
    Membership.notMember.word]

/-- Whether a word can stand on a side of a comparison. -/
def isOperand (word : Text) : Bool :=
  !reserved.contains word

/-- Puts a space on both sides of every parenthesis. -/
def spaceParentheses (text : Text) : Text :=
  text.flatMap fun char => if char = '(' || char = ')' then [' ', char, ' '] else [char]

/-- Puts a space on both sides of every comparison symbol, the longer symbols first. -/
def spaceComparisons : Text → Text
  | '>' :: '=' :: rest => ' ' :: '>' :: '=' :: ' ' :: spaceComparisons rest
  | '<' :: '=' :: rest => ' ' :: '<' :: '=' :: ' ' :: spaceComparisons rest
  | '!' :: '=' :: rest => ' ' :: '!' :: '=' :: ' ' :: spaceComparisons rest
  | char :: rest =>
    if char = '>' || char = '<' || char = '=' then ' ' :: char :: ' ' :: spaceComparisons rest
    else char :: spaceComparisons rest
  | [] => []

end Word

end DataCondition
