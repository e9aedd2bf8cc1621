import DataCondition.Vocabulary

/-!
# Tokens

A condition is a row of tests, connectives and parentheses.
-/

namespace DataCondition

/-- A unit of a condition. -/
inductive Token where
  /-- A comparison or membership test, with its parts joined in one text. -/
  | atom (text : Text)
  | connective (link : Connective)
  | opening
  | closing
deriving DecidableEq, Repr

namespace Token

/-- How a token is written. -/
def toText : Token → Text
  | .atom text => text
  | .connective link => link.word
  | .opening => ['(']
  | .closing => [')']

/-- The connective that a token is. -/
def connective? : Token → Option Connective
  | .connective link => some link
  | _ => none

end Token

end DataCondition
