import DataCondition.Error
import DataCondition.Token.Folding

/-!
# Reading tokens

Each normal word is a token, except that a membership word is joined with the test subject before it
and with the list after it.
-/

namespace DataCondition

namespace Token

/-- What a normal word stands for. -/
inductive Role where
  | connective (link : Connective)
  | opening
  | closing
  | membership (operator : Membership)
  | plain
deriving DecidableEq, Repr

/-- The role of a word: every word that is not reserved is plain. -/
def role (word : Text) : Role :=
  if word = Connective.and.word then .connective .and
  else if word = Connective.or.word then .connective .or
  else if word = Word.opening then .opening
  else if word = Word.closing then .closing
  else if word = Membership.member.word then .membership .member
  else if word = Membership.notMember.word then .membership .notMember
  else .plain

/-- The words of a list on single spaces, without the blanks around its commas. -/
def compact (words : List Text) : Text :=
  [','].intercalate (([' '].intercalate words).splitOn ',' |>.map Text.trim)

/-- The text of a membership test. -/
def membershipText (subject : Text) (operator : Membership) (words : List Text) : Text :=
  subject ++ ' ' :: operator.word ++ ' ' :: '(' :: compact words ++ [')']

mutual

/-- Reads words from the one at `position` on; `done` holds the tokens before it, the last first. -/
def read (position : Nat) (done : List Token) : List Text → Except Error (List Token)
  | [] => .ok done.reverse
  | word :: rest =>
    match role word with
    | .connective link => read (position + 1) (.connective link :: done) rest
    | .opening => read (position + 1) (.opening :: done) rest
    | .closing => read (position + 1) (.closing :: done) rest
    | .plain => read (position + 1) (.atom word :: done) rest
    | .membership operator =>
      match done with
      | .atom subject :: before =>
        match rest with
        | [] => .error (.missingList operator position none)
        | next :: rest =>
          if next = Word.opening then
            readList (position + 2) (position + 1) subject operator [] before rest
          else .error (.missingList operator position (some next))
      | _ => .error (.missingSubject operator position)

/-- Reads the words of a list that was opened at `opened`; `items` holds them, the last first. -/
def readList (position opened : Nat) (subject : Text) (operator : Membership) (items : List Text)
    (done : List Token) : List Text → Except Error (List Token)
  | [] => .error (.unbalanced .opening opened)
  | word :: rest =>
    if word = Word.closing then
      read (position + 1) (.atom (membershipText subject operator items.reverse) :: done) rest
    else readList (position + 1) opened subject operator (word :: items) done rest

end

end Token

/-- The tokens of a condition. -/
def Condition.tokens (condition : Text) : Except Error (List Token) :=
  Token.read 0 [] (Condition.words condition)

end DataCondition
