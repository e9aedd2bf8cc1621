import DataCondition.Text.Blank

/-!
# The words of conditions

Connectives join tests; a test compares an attribute with a literal, or asks for it in a list.
-/

namespace DataCondition

/-- The words that join tests. -/
inductive Connective where
  | and
  | or
deriving DecidableEq, Repr

/-- How a connective is written. -/
def Connective.word : Connective → Text
  | .and => ['a', 'n', 'd']
  | .or => ['o', 'r']

/-- The tests against a list. -/
inductive Membership where
  | member
  | notMember
deriving DecidableEq, Repr

/-- How a membership test is written within an atom. -/
def Membership.word : Membership → Text
  | .member => ['i', 'n']
  | .notMember => ['n', 'o', 't', '_', 'i', 'n']

/-- The tests against one literal. -/
inductive Comparison where
  | greater
  | greaterEqual
  | less
  | lessEqual
  | equal
  | notEqual
deriving DecidableEq, Repr

namespace Comparison

/-- How a comparison is written. -/
def symbol : Comparison → Text
  | .greater => ['>']
  | .greaterEqual => ['>', '=']
  | .less => ['<']
  | .lessEqual => ['<', '=']
  | .equal => ['=']
  | .notEqual => ['!', '=']

/-- The longest symbol at the start of a text, and what follows it. -/
def read? : Text → Option (Comparison × Text)
  | '>' :: '=' :: rest => some (.greaterEqual, rest)
  | '<' :: '=' :: rest => some (.lessEqual, rest)
  | '!' :: '=' :: rest => some (.notEqual, rest)
  | '>' :: rest => some (.greater, rest)
  | '<' :: rest => some (.less, rest)
  | '=' :: rest => some (.equal, rest)
  | _ => none

/-- The comparison with this symbol. -/
def ofSymbol? (symbol : Text) : Option Comparison :=
  match read? symbol with
  | some (comparison, []) => some comparison
  | _ => none

theorem ofSymbol?_symbol (comparison : Comparison) :
    ofSymbol? comparison.symbol = some comparison := by
  cases comparison <;> rfl

end Comparison

/-- The tests of an attribute. -/
inductive Operator where
  | comparison (operator : Comparison)
  | membership (operator : Membership)
deriving DecidableEq, Repr

namespace Operator

/-- How an operator is written within an atom. -/
def toText : Operator → Text
  | .comparison operator => operator.symbol
  | .membership operator => operator.word

/-- The operator that is written so. -/
def ofText? (text : Text) : Option Operator :=
  if text = Membership.member.word then some (.membership .member)
  else if text = Membership.notMember.word then some (.membership .notMember)
  else (Comparison.ofSymbol? text).map .comparison

/-- Whether the operator tests against a list. -/
def isMembership : Operator → Bool
  | .comparison _ => false
  | .membership _ => true

theorem ofText?_toText (operator : Operator) : ofText? operator.toText = some operator := by
  rcases operator with comparison | membership
  · cases comparison <;> rfl
  · cases membership <;> rfl

end Operator

end DataCondition
