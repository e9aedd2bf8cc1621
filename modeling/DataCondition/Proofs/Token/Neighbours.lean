import DataCondition.Proofs.Gaps
import DataCondition.Proofs.Grammar.Places

/-!
# Neighbouring tokens

There are gaps before, between and behind the tokens of a row. The neighbours at a gap may show that
a pair of parentheses is empty or that an `or` lacks an operand.
-/

namespace DataCondition

namespace Token

/-- Whether a pair of parentheses with nothing inside meets at this gap. -/
def IsHollow (tokens : List Token) (gap : Nat) : Prop :=
  (tokens.take gap).getLast? = some .opening ∧ (tokens.drop gap).head? = some .closing

/--
Whether an `or` lacks an operand at this gap: the start, an opening parenthesis or another `or` is
before it, or a closing parenthesis or the end is behind it.
-/
def LacksOperand (tokens : List Token) (gap : Nat) : Prop :=
  let before := (tokens.take gap).getLast?
  let behind := (tokens.drop gap).head?
  (before = none ∨ before = some .opening ∨ before = some (.connective .or)) ∧
      behind = some (.connective .or) ∨
    before = some (.connective .or) ∧ (behind = some .closing ∨ behind = none)

instance (tokens : List Token) (gap : Nat) : Decidable (IsHollow tokens gap) :=
  inferInstanceAs (Decidable (_ ∧ _))

instance (tokens : List Token) (gap : Nat) : Decidable (LacksOperand tokens gap) :=
  inferInstanceAs (Decidable (_ ∧ _ ∨ _ ∧ _))

/-- The fault that two neighbours show; `opened` is the number of the one before. -/
def pairFault? (opened : Nat) : Option Token → Option Token → Option Error
  | some .opening, some .closing => some (.emptyGroup opened)
  | none, some (.connective .or) | some .opening, some (.connective .or)
  | some (.connective .or), some (.connective .or)
  | some (.connective .or), some .closing | some (.connective .or), none =>
    some (.missingOperand .or)
  | _, _ => none

/-- The fault at the gap between tokens, which are numbered from `next` on. -/
def faultBetween? (next : UInt32) (front back : List Token) : Option Error :=
  pairFault? (numberAfter next front.dropLast) front.getLast? back.head?

/-- The first fault at the end of `front` or later. -/
def firstFault? (next : UInt32) (front back : List Token) : Option Error :=
  Gaps.firstFault? (faultBetween? next) front back

theorem firstFault?_cons (next : UInt32) (front : List Token) (token : Token) (back : List Token) :
    firstFault? next front (token :: back) =
      (faultBetween? next front (token :: back)).or (firstFault? next (front ++ [token]) back) :=
  rfl

theorem IsHollow.lt_length {tokens : List Token} {gap : Nat} (hollow : IsHollow tokens gap) :
    gap < tokens.length := by
  have behind := hollow.2
  rw [List.head?_drop] at behind
  exact (List.getElem?_eq_some_iff.mp behind).1

/-- The empty pair of parentheses opens before the gap. -/
theorem IsHollow.getElem?_eq {tokens : List Token} {gap : Nat} (hollow : IsHollow tokens gap) :
    tokens[gap - 1]? = some .opening := by
  have within : gap - 1 < tokens.length := Nat.lt_of_le_of_lt (Nat.sub_le gap 1) hollow.lt_length
  have before := hollow.1
  rw [List.getLast?_take, List.getElem?_eq_getElem within] at before
  split at before
  next => cases before
  next =>
    rw [List.getElem?_eq_getElem within]
    exact before

theorem faultBetween?_of_isHollow {next : UInt32} {tokens : List Token} {gap : Nat}
    (hollow : IsHollow tokens gap) :
    faultBetween? next (tokens.take gap) (tokens.drop gap) =
      some (.emptyGroup (numberAfter next (tokens.take (gap - 1)))) := by
  rw [faultBetween?, hollow.1, hollow.2, List.dropLast_take hollow.lt_length]
  rfl

theorem faultBetween?_of_lacksOperand {next : UInt32} {tokens : List Token} {gap : Nat}
    (lacking : LacksOperand tokens gap) :
    faultBetween? next (tokens.take gap) (tokens.drop gap) = some (.missingOperand .or) := by
  rw [faultBetween?]
  rcases lacking with ⟨before, behind⟩ | ⟨before, behind⟩
  · rw [behind]
    rcases before with before | before | before <;> rw [before] <;> rfl
  · rw [before]
    rcases behind with behind | behind <;> rw [behind] <;> rfl

/-- There is no other fault. -/
theorem faultBetween?_ne_none_iff (next : UInt32) {tokens : List Token} {gap : Nat} :
    faultBetween? next (tokens.take gap) (tokens.drop gap) ≠ none ↔
      IsHollow tokens gap ∨ LacksOperand tokens gap := by
  constructor
  · intro found
    unfold IsHollow LacksOperand
    rw [faultBetween?] at found
    generalize (tokens.take gap).getLast? = before at found ⊢
    generalize (tokens.drop gap).head? = behind at found ⊢
    unfold pairFault? at found
    split at found <;> simp_all
  · rintro (hollow | lacking)
    · simp [faultBetween?_of_isHollow hollow]
    · simp [faultBetween?_of_lacksOperand lacking]

/-- Tokens are faultless if there is no fault at any of their gaps. -/
theorem firstFault?_eq_none_iff {next : UInt32} {tokens : List Token} :
    firstFault? next [] tokens = none ↔
      ∀ gap, ¬IsHollow tokens gap ∧ ¬LacksOperand tokens gap := by
  simp only [← not_or]
  exact Gaps.firstFault?_eq_none_iff fun _ => faultBetween?_ne_none_iff next

theorem firstFault?_of_isLeast {next : UInt32} {tokens : List Token} {gap : Nat}
    (least : IsLeast {gap | IsHollow tokens gap ∨ LacksOperand tokens gap} gap) :
    firstFault? next [] tokens = faultBetween? next (tokens.take gap) (tokens.drop gap) :=
  Gaps.firstFault?_of_isLeast (fun _ => faultBetween?_ne_none_iff next) least

end Token

end DataCondition
