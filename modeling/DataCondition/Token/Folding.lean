import DataCondition.Token.Piece

/-!
# The words of a condition in normal form

The spellings `is`, `is not` and `not in` become `=`, `!=` and `not_in`, and every comparison symbol
is joined with the operands on its sides. A word is taken at a time; what it means may hang on the
word after it, so a state tells what is pending.
-/

namespace DataCondition

namespace Word

/-- What the pieces read last still wait for. -/
inductive Pending where
  | nothing
  /-- The word `is`, which `not` may follow. -/
  | copula
  /-- The word `not`, which `in` may follow. -/
  | negation
  /-- A comparison symbol with the operand on its left, which an operand on its right may follow. -/
  | operand (joined : Text)
deriving DecidableEq, Repr

/-- The normal words so far, the last one first, and what is pending. -/
structure Folding where
  done : List Text
  pending : Pending
deriving DecidableEq, Repr

namespace Folding

/-- Joins a comparison symbol with the last word, if that is an operand. -/
def join (done : List Text) (symbol : Text) : List Text × Text :=
  match done with
  | [] => ([], symbol)
  | left :: rest => if isOperand left then (rest, left ++ symbol) else (done, symbol)

/-- Takes a word while nothing is pending. -/
def start (done : List Text) (word : Text) : Folding :=
  if word = copula then ⟨done, .copula⟩
  else if word = negation then ⟨done, .negation⟩
  else if (Comparison.ofSymbol? word).isSome then
    let (done, joined) := join done word
    ⟨done, .operand joined⟩
  else ⟨word :: done, .nothing⟩

/-- Takes a word after a comparison symbol, which any operand completes. -/
def complete (done : List Text) (joined word : Text) : Folding :=
  if isOperand word then ⟨(joined ++ word) :: done, .nothing⟩ else start (joined :: done) word

/-- The words once nothing is pending any more, the last one first. -/
def flush (state : Folding) : List Text :=
  match state.pending with
  | .nothing => state.done
  | .copula =>
    let (done, joined) := join state.done Comparison.equal.symbol
    joined :: done
  | .negation => negation :: state.done
  | .operand joined => joined :: state.done

/-- Takes the next piece; the words of a list are kept as they are. -/
def step (state : Folding) : Piece → Folding
  | .listed word => ⟨word :: state.flush, .nothing⟩
  | .free word =>
    match state.pending with
    | .nothing => start state.done word
    | .copula =>
      if word = negation then
        let (done, joined) := join state.done Comparison.notEqual.symbol
        ⟨done, .operand joined⟩
      else
        let (done, joined) := join state.done Comparison.equal.symbol
        complete done joined word
    | .negation =>
      if word = Membership.member.word then ⟨Membership.notMember.word :: state.done, .nothing⟩
      else start (negation :: state.done) word
    | .operand joined => complete state.done joined word

end Folding

/-- The normal words that pieces fold to. -/
def fold (pieces : List Piece) : List Text :=
  (pieces.foldl Folding.step ⟨[], .nothing⟩).flush.reverse

end Word

/-- The words of a condition in normal form. -/
def Condition.words (condition : Text) : List Text :=
  Word.fold (Word.outside (Text.words (Word.spaceParentheses condition)))

end DataCondition
