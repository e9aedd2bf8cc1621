import Mathlib.Order.Bounds.Defs
import DataCondition.Proofs.Token.Depth

/-!
# Matching parentheses

Two parentheses match if what stands between them is balanced. The first closing one without a
partner stands behind balanced tokens; if there is none, the last opening one without a partner
stands in front of them.
-/

namespace DataCondition

namespace Token

/-- Whether no closing parenthesis comes too early when `depth` parentheses are open before. -/
def IsCovered (depth : Nat) (tokens : List Token) : Prop :=
  ∀ front, front <+: tokens → front.count .closing ≤ depth + front.count .opening

/-- Whether the parentheses at two positions match. -/
def Match (tokens : List Token) (opened closed : Nat) : Prop :=
  ∃ front inner back, tokens = front ++ .opening :: (inner ++ .closing :: back) ∧
    IsBalanced inner ∧ front.length = opened ∧ opened + 1 + inner.length = closed

/-- Whether there is an opening parenthesis at this position that no closing one matches. -/
def IsUnclosed (tokens : List Token) (position : Nat) : Prop :=
  tokens[position]? = some .opening ∧ ∀ closed, ¬Match tokens position closed

/-- Whether there is a closing parenthesis at this position that matches no opening one. -/
def IsUnopened (tokens : List Token) (position : Nat) : Prop :=
  tokens[position]? = some .closing ∧ ∀ opened, ¬Match tokens opened position

theorem isCovered_cons {depth : Nat} {token : Token} {rest : List Token} :
    IsCovered depth (token :: rest) ↔
      [token].count .closing ≤ depth ∧
        IsCovered (depth + [token].count .opening - [token].count .closing) rest := by
  constructor
  · intro covered
    have first := covered [token] (List.prefix_append [token] rest)
    have within : [token].count .closing ≤ depth := by
      cases token with
      | closing => simpa using first
      | opening | atom _ | connective _ => simp
    refine ⟨within, fun front isPrefix => ?_⟩
    have whole := covered (token :: front) ((List.prefix_cons_inj token).mpr isPrefix)
    rw [← List.singleton_append, List.count_append, List.count_append] at whole
    omega
  · rintro ⟨within, covered⟩ front isPrefix
    rcases List.prefix_cons_iff.mp isPrefix with rfl | ⟨later, rfl, laterPrefix⟩
    · simp
    · have below := covered later laterPrefix
      rw [← List.singleton_append, List.count_append, List.count_append]
      omega

theorem isBalanced_iff {tokens : List Token} :
    IsBalanced tokens ↔ IsCovered 0 tokens ∧ tokens.count .opening = tokens.count .closing := by
  constructor
  · rintro ⟨covered, closed⟩
    exact ⟨fun front isPrefix => by simpa using covered front ((List.mem_inits _ _).mpr isPrefix),
      closed⟩
  · rintro ⟨covered, closed⟩
    exact ⟨fun front member => by simpa using covered front ((List.mem_inits _ _).mp member),
      closed⟩

/-- In front of a closing parenthesis that is not too early, more is opened than closed. -/
theorem IsCovered.count_lt {front back : List Token}
    (covered : IsCovered 0 (front ++ .closing :: back)) :
    front.count .closing < front.count .opening := by
  have within := covered (front ++ [.closing]) (by simp)
  simp at within
  omega

/-- What stands behind an opening parenthesis of balanced tokens closes more than it opens. -/
theorem IsBalanced.count_lt {front back : List Token}
    (balanced : IsBalanced (front ++ .opening :: back)) :
    back.count .opening < back.count .closing := by
  have within := balanced.count_suffix (.opening :: back) (List.suffix_append _ _)
  simp at within
  omega

/-- The first closing parenthesis that comes too early has balanced tokens before it. -/
theorem exists_append_closing {tokens : List Token} (early : ¬IsCovered 0 tokens) :
    ∃ front back, tokens = front ++ .closing :: back ∧ IsBalanced front := by
  induction tokens using List.reverseRecOn with
  | nil => exact absurd (fun front none => by simp [List.prefix_nil.mp none]) early
  | append_singleton init last induction =>
      by_cases covered : IsCovered 0 init
      · -- only the whole row closes more than it opens, so that its last token does
        have whole : (init ++ [last]).count .opening < (init ++ [last]).count .closing := by
          refine Nat.lt_of_not_le fun within => early fun front isPrefix => ?_
          rcases List.prefix_concat_iff.mp isPrefix with rfl | inside
          · simpa using within
          · exact covered front inside
        have before := covered init List.prefix_rfl
        cases last with
        | closing =>
            refine ⟨init, [], rfl, isBalanced_iff.mpr ⟨covered, ?_⟩⟩
            simp at whole before
            omega
        | opening | atom _ | connective _ =>
            simp at whole before
            omega
      · obtain ⟨front, back, rfl, balanced⟩ := induction covered
        exact ⟨front, back ++ [last], by simp, balanced⟩

/-- The last opening parenthesis that stays open has balanced tokens after it. -/
theorem exists_append_opening {tokens : List Token}
    (opened : ∃ back, back <:+ tokens ∧ back.count .closing < back.count .opening) :
    ∃ front back, tokens = front ++ .opening :: back ∧ IsBalanced back := by
  induction tokens with
  | nil =>
      obtain ⟨back, isSuffix, more⟩ := opened
      simp [List.suffix_nil.mp isSuffix] at more
  | cons token rest induction =>
      by_cases inside : ∃ back, back <:+ rest ∧ back.count .closing < back.count .opening
      · obtain ⟨front, back, rfl, balanced⟩ := induction inside
        exact ⟨token :: front, back, rfl, balanced⟩
      · -- only the whole row opens more than it closes, so that its first token does
        have within : ∀ back, back <:+ rest → back.count .opening ≤ back.count .closing :=
          fun back isSuffix => Nat.le_of_not_lt fun more => inside ⟨back, isSuffix, more⟩
        have whole : (token :: rest).count .closing < (token :: rest).count .opening := by
          obtain ⟨back, isSuffix, more⟩ := opened
          rcases List.suffix_cons_iff.mp isSuffix with rfl | later
          · exact more
          · exact absurd (within back later) (Nat.not_le_of_lt more)
        have after := within rest List.suffix_rfl
        cases token with
        | opening =>
            simp at whole
            have closed : rest.count .opening = rest.count .closing := by omega
            refine ⟨[], rest, rfl, isBalanced_iff.mpr ⟨fun front isPrefix => ?_, closed⟩⟩
            obtain ⟨back, rfl⟩ := isPrefix
            have behind := within back (List.suffix_append _ _)
            simp only [List.count_append] at closed
            omega
        | closing | atom _ | connective _ =>
            simp at whole
            omega

/--
Tokens that are not balanced have a closing parenthesis that comes too early, or else an opening one
that stays open.
-/
theorem isBalanced_or_unmatched (tokens : List Token) :
    IsBalanced tokens ∨
      (∃ front back, tokens = front ++ .closing :: back ∧ IsBalanced front) ∨
      (IsCovered 0 tokens ∧
        ∃ front back, tokens = front ++ .opening :: back ∧ IsBalanced back) := by
  by_cases covered : IsCovered 0 tokens
  · by_cases closed : tokens.count .opening = tokens.count .closing
    · exact .inl (isBalanced_iff.mpr ⟨covered, closed⟩)
    · have within := covered tokens List.prefix_rfl
      exact .inr (.inr ⟨covered, exists_append_opening ⟨tokens, List.suffix_rfl, by omega⟩⟩)
  · exact .inr (.inl (exists_append_closing covered))

/-- A closing parenthesis behind tokens that open more than they close has a partner. -/
theorem exists_match_closing {front : List Token} (back : List Token)
    (more : front.count .closing < front.count .opening) :
    ∃ opened, Match (front ++ .closing :: back) opened front.length := by
  obtain ⟨outer, inner, rfl, balanced⟩ := exists_append_opening ⟨front, List.suffix_rfl, more⟩
  refine ⟨outer.length, outer, inner, back, by simp, balanced, rfl, ?_⟩
  simp
  omega

/-- An opening parenthesis before tokens that close more than they open has a partner. -/
theorem exists_match_opening (front : List Token) {back : List Token}
    (more : back.count .opening < back.count .closing) :
    ∃ closed, Match (front ++ .opening :: back) front.length closed := by
  have early : ¬IsCovered 0 back := fun covered => by
    have within := covered back List.prefix_rfl
    omega
  obtain ⟨inner, outer, rfl, balanced⟩ := exists_append_closing early
  exact ⟨_, front, inner, outer, rfl, balanced, rfl, rfl⟩

theorem exists_append_of_getElem? {tokens : List Token} {position : Nat} {token : Token}
    (found : tokens[position]? = some token) :
    ∃ front back, tokens = front ++ token :: back ∧ front.length = position := by
  obtain ⟨within, rfl⟩ := List.getElem?_eq_some_iff.mp found
  refine ⟨tokens.take position, tokens.drop (position + 1), ?_, by simp; omega⟩
  rw [← List.drop_eq_getElem_cons, List.take_append_drop]

/-- Every closing parenthesis has a partner where none comes too early. -/
theorem IsCovered.not_isUnopened {tokens : List Token} (covered : IsCovered 0 tokens)
    (position : Nat) : ¬IsUnopened tokens position := by
  rintro ⟨found, alone⟩
  obtain ⟨front, back, rfl, rfl⟩ := exists_append_of_getElem? found
  obtain ⟨opened, partner⟩ := exists_match_closing back covered.count_lt
  exact alone opened partner

/-- Every opening parenthesis of balanced tokens has a partner. -/
theorem IsBalanced.not_isUnclosed {tokens : List Token} (balanced : IsBalanced tokens)
    (position : Nat) : ¬IsUnclosed tokens position := by
  rintro ⟨found, alone⟩
  obtain ⟨front, back, rfl, rfl⟩ := exists_append_of_getElem? found
  obtain ⟨closed, partner⟩ := exists_match_opening front balanced.count_lt
  exact alone closed partner

/-- The first closing parenthesis without a partner is the one behind balanced tokens. -/
theorem isLeast_isUnopened {front : List Token} (back : List Token) (balanced : IsBalanced front) :
    IsLeast {position | IsUnopened (front ++ .closing :: back) position} front.length := by
  have covered := (isBalanced_iff.mp balanced).1
  refine ⟨⟨by simp, ?_⟩, ?_⟩
  · rintro opened ⟨outer, inner, rest, same, inside, rfl, length⟩
    have cut : front ++ .closing :: back = (outer ++ .opening :: inner) ++ .closing :: rest := by
      simp [same]
    obtain ⟨rfl, -⟩ := List.append_inj cut (by simp; omega)
    have after := balanced.count_lt
    have closed := inside.closed
    omega
  · rintro position ⟨found, alone⟩
    refine Nat.le_of_not_lt fun earlier => ?_
    rw [List.getElem?_append_left earlier] at found
    obtain ⟨outer, inner, rfl, rfl⟩ := exists_append_of_getElem? found
    obtain ⟨opened, partner⟩ := exists_match_closing (inner ++ .closing :: back) covered.count_lt
    exact alone opened (by simpa using partner)

/-- The last opening parenthesis without a partner is the one before balanced tokens. -/
theorem isGreatest_isUnclosed (front : List Token) {back : List Token}
    (balanced : IsBalanced back) :
    IsGreatest {position | IsUnclosed (front ++ .opening :: back) position} front.length := by
  have covered := (isBalanced_iff.mp balanced).1
  refine ⟨⟨by simp, ?_⟩, ?_⟩
  · rintro closed ⟨outer, inner, rest, same, inside, length, -⟩
    obtain ⟨rfl, behind⟩ := List.append_inj same length.symm
    obtain rfl : back = inner ++ .closing :: rest := (List.cons.inj behind).2
    have before := covered.count_lt
    have closed := inside.closed
    omega
  · rintro position ⟨found, alone⟩
    refine Nat.le_of_not_lt fun later => ?_
    obtain ⟨gap, rfl⟩ : ∃ gap, position = front.length + (gap + 1) :=
      ⟨position - front.length - 1, by omega⟩
    rw [List.getElem?_append_right (by omega), Nat.add_sub_cancel_left,
      List.getElem?_cons_succ] at found
    obtain ⟨outer, inner, rfl, rfl⟩ := exists_append_of_getElem? found
    obtain ⟨closed, partner⟩ := exists_match_opening (front ++ .opening :: outer) balanced.count_lt
    exact alone closed (by simpa using partner)

end Token

end DataCondition
