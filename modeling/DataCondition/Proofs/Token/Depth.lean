import Mathlib.Data.List.Infix
import Mathlib.Order.Bounds.Defs
import DataCondition.Tree.Nesting

/-!
# How deep parentheses nest

The depth of tokens goes up at an opening and down at a closing parenthesis, but not below zero.
-/

namespace DataCondition

namespace Token

/-- The greatest depth that is reached from a given depth on. -/
def deepest (depth : Nat) : List Token → Nat
  | [] => depth
  | .opening :: rest => deepest (depth + 1) rest
  | .closing :: rest => max depth (deepest (depth - 1) rest)
  | .atom _ :: rest | .connective _ :: rest => deepest depth rest

/-- How deep the parentheses of tokens nest. -/
def nesting (tokens : List Token) : Nat := deepest 0 tokens

theorem le_deepest (depth : Nat) (tokens : List Token) : depth ≤ deepest depth tokens := by
  fun_induction deepest depth tokens with
  | case1 => exact Nat.le_refl _
  | case2 depth rest induction => omega
  | case3 depth rest induction => exact Nat.le_max_left ..
  | case4 depth text rest induction => exact induction
  | case5 depth link rest induction => exact induction

/-- What is deeper is so behind any tokens. -/
theorem deepest_append_le {left right : List Token}
    (le : ∀ depth, deepest depth left ≤ deepest depth right) (before : List Token) (depth : Nat) :
    deepest depth (before ++ left) ≤ deepest depth (before ++ right) := by
  induction before generalizing depth with
  | nil => exact le depth
  | cons token rest induction =>
      cases token with
      | opening => exact induction (depth + 1)
      | closing =>
          have below := induction (depth - 1)
          simp only [List.cons_append, deepest]
          omega
      | atom text => exact induction depth
      | connective link => exact induction depth

/-- The depth behind tokens that start at a given depth. -/
def depthAfter (depth : Nat) : List Token → Nat
  | [] => depth
  | .opening :: rest => depthAfter (depth + 1) rest
  | .closing :: rest => depthAfter (depth - 1) rest
  | .atom _ :: rest | .connective _ :: rest => depthAfter depth rest

/-- Whether the token at this position brings the depth, which starts at zero, to `depth`. -/
def ReachesAt (tokens : List Token) (depth position : Nat) : Prop :=
  position < tokens.length ∧ depthAfter 0 (tokens.take (position + 1)) = depth

theorem depthAfter_append (depth : Nat) (front back : List Token) :
    depthAfter depth (front ++ back) = depthAfter (depthAfter depth front) back := by
  fun_induction depthAfter depth front with
  | case1 => rfl
  | case2 depth rest induction => exact induction
  | case3 depth rest induction => exact induction
  | case4 depth text rest induction => exact induction
  | case5 depth link rest induction => exact induction

/-- No depth on the way is greater than the greatest one. -/
theorem depthAfter_le_deepest (depth : Nat) {front tokens : List Token}
    (isPrefix : front <+: tokens) : depthAfter depth front ≤ deepest depth tokens := by
  obtain ⟨back, rfl⟩ := isPrefix
  fun_induction depthAfter depth front with
  | case1 depth => exact le_deepest depth back
  | case2 depth rest induction => exact induction
  | case3 depth rest induction =>
      rw [List.cons_append, deepest]
      exact Nat.le_trans induction (Nat.le_max_right ..)
  | case4 depth text rest induction => exact induction
  | case5 depth link rest induction => exact induction

theorem ReachesAt.le_nesting {tokens : List Token} {depth position : Nat}
    (reached : ReachesAt tokens depth position) : depth ≤ nesting tokens := by
  obtain ⟨-, rfl⟩ := reached
  exact depthAfter_le_deepest 0 (List.take_prefix (position + 1) tokens)

/-- Whether every parenthesis has its partner: no closing one comes too early or is missing. -/
structure IsBalanced (tokens : List Token) : Prop where
  covered : ∀ front ∈ tokens.inits, front.count .closing ≤ front.count .opening
  closed : tokens.count .opening = tokens.count .closing

/-- What balanced tokens end with opens no more parentheses than it closes. -/
theorem IsBalanced.count_suffix {tokens : List Token} (balanced : IsBalanced tokens)
    (back : List Token) (isSuffix : back <:+ tokens) :
    back.count .opening ≤ back.count .closing := by
  obtain ⟨front, rfl⟩ := isSuffix
  have covered := balanced.covered front ((List.mem_inits _ _).mpr (List.prefix_append _ _))
  have closed := balanced.closed
  rw [List.count_append, List.count_append] at closed
  omega

end Token

namespace Nesting

/-- Tokens are refused for their depth exactly if they nest deeper than the limit. -/
theorem tooDeepAt?_eq_none_iff {depth : Nat} (position : Nat) (tokens : List Token)
    (within : depth ≤ limit) :
    tooDeepAt? depth position tokens = none ↔ Token.deepest depth tokens ≤ limit := by
  induction tokens generalizing depth position with
  | nil => simpa [tooDeepAt?, Token.deepest] using within
  | cons token rest induction =>
      cases token with
      | opening =>
          by_cases room : depth < limit
          · rw [tooDeepAt?, if_pos room, Token.deepest]
            exact induction (position + 1) room
          · have reached := Token.le_deepest (depth + 1) rest
            rw [tooDeepAt?, if_neg room, Token.deepest]
            simp only [reduceCtorEq, false_iff]
            omega
      | closing =>
          rw [tooDeepAt?, Token.deepest, induction (position + 1) (by omega)]
          omega
      | atom text => exact induction (position + 1) within
      | connective link => exact induction (position + 1) within

/-- Tokens are refused at an opening parenthesis, in front of which they nest up to the limit. -/
theorem exists_of_tooDeepAt? {depth start position : Nat} {tokens : List Token}
    (within : depth ≤ limit) (found : tooDeepAt? depth start tokens = some position) :
    ∃ front back, tokens = front ++ .opening :: back ∧ position = start + front.length ∧
      Token.depthAfter depth front = limit ∧ Token.deepest depth front ≤ limit := by
  induction tokens generalizing depth start with
  | nil => simp [tooDeepAt?] at found
  | cons token rest induction =>
      cases token with
      | opening =>
          by_cases room : depth < limit
          · rw [tooDeepAt?, if_pos room] at found
            obtain ⟨front, back, rfl, rfl, reached, below⟩ := induction room found
            exact ⟨.opening :: front, back, rfl, by simp; omega, reached, below⟩
          · rw [tooDeepAt?, if_neg room] at found
            obtain rfl := Option.some.inj found
            exact ⟨[], rest, rfl, rfl, Nat.le_antisymm within (Nat.le_of_not_lt room), within⟩
      | closing =>
          rw [tooDeepAt?] at found
          obtain ⟨front, back, rfl, rfl, reached, below⟩ := induction (by omega) found
          exact ⟨.closing :: front, back, rfl, by simp; omega, reached,
            Nat.max_le.mpr ⟨within, below⟩⟩
      | atom text =>
          obtain ⟨front, back, rfl, rfl, reached, below⟩ := induction within found
          exact ⟨.atom text :: front, back, rfl, by simp; omega, reached, below⟩
      | connective link =>
          obtain ⟨front, back, rfl, rfl, reached, below⟩ := induction within found
          exact ⟨.connective link :: front, back, rfl, by simp; omega, reached, below⟩

/-- Tokens are refused where they first nest one deeper than the limit. -/
theorem isLeast_of_tooDeepAt? {position : Nat} {tokens : List Token}
    (found : tooDeepAt? 0 0 tokens = some position) :
    IsLeast {position | Token.ReachesAt tokens (limit + 1) position} position := by
  obtain ⟨front, back, rfl, rfl, reached, below⟩ := exists_of_tooDeepAt? (Nat.zero_le _) found
  rw [Nat.zero_add]
  refine ⟨⟨by simp, ?_⟩, ?_⟩
  · have taken : (front ++ .opening :: back).take (front.length + 1) = front ++ [.opening] := by
      simp [List.take_append]
    rw [taken, Token.depthAfter_append, reached]
    rfl
  · rintro earlier ⟨-, deep⟩
    refine Nat.le_of_not_lt fun before => ?_
    have inside : earlier + 1 ≤ front.length := before
    rw [List.take_append_of_le_length inside] at deep
    have shallow := Token.depthAfter_le_deepest 0 (List.take_prefix (earlier + 1) front)
    omega

end Nesting

end DataCondition
