import Mathlib.Data.List.Forall2
import DataCondition.Proofs.Grammar.Acceptance
import DataCondition.Proofs.Grammar.Frames

/-!
# Redundant parentheses

Parentheses around one or more whole disjuncts change nothing about the logic tree but its numbers.
The disjuncts are read into one frame with and without the parentheses, and the two readings stay
alike from there on.
-/

namespace DataCondition

namespace Token

/-- Whether a disjunct begins after these tokens. -/
def OpensDisjunct (before : List Token) : Prop :=
  before = [] ∨ before.getLast? = some .opening ∨ before.getLast? = some (.connective .or)

/-- Whether a disjunct ends before these tokens. -/
def ClosesDisjunct (after : List Token) : Prop :=
  after = [] ∨ after.head? = some .closing ∨ after.head? = some (.connective .or)

theorem OpensDisjunct.eq_nil_or_concat {before : List Token} (opens : OpensDisjunct before) :
    before = [] ∨ ∃ front token, before = front ++ [token] ∧
      (token = .opening ∨ token = .connective .or) := by
  rcases opens with rfl | opening | link
  · exact .inl rfl
  · obtain ⟨front, rfl⟩ := List.getLast?_eq_some_iff.mp opening
    exact .inr ⟨front, _, rfl, .inl rfl⟩
  · obtain ⟨front, rfl⟩ := List.getLast?_eq_some_iff.mp link
    exact .inr ⟨front, _, rfl, .inr rfl⟩

end Token

namespace Grammar

/-- Terms that are the same operand, and the same disjuncts where they stand alone. -/
structure Term.Alike (left right : Term) : Prop where
  operand : left.operand = right.operand
  alternatives : (Conjunction.last left).alternatives = (Conjunction.last right).alternatives

theorem Term.Alike.refl (term : Term) : term.Alike term := ⟨rfl, rfl⟩

theorem Term.Alike.group {left right : Disjunction}
    (same : left.alternatives = right.alternatives) : (Term.group left).Alike (.group right) where
  operand := by rw [Term.operand, Term.operand, same]
  alternatives := same

/-- The operands of the first disjunct. -/
def Disjunction.leading : Disjunction → List Node
  | .last conjunction => conjunction.operands
  | .or first _ => first.operands

/-- The disjuncts after the first one. -/
def Disjunction.trailing : Disjunction → List Node
  | .last _ => []
  | .or _ later => later.alternatives

/-- Disjunctions that become the same disjuncts, also with further terms in front of them. -/
structure Disjunction.Alike (left right : Disjunction) : Prop where
  alternatives : left.alternatives = right.alternatives
  leading : left.leading = right.leading
  trailing : left.trailing = right.trailing

theorem Disjunction.alternatives_prepend (term : Term) (disjunction : Disjunction) :
    (disjunction.prepend term).alternatives =
      .bare .disjunct [.bare .conjunction (term.operand :: disjunction.leading)] ::
        disjunction.trailing := by
  cases disjunction with
  | last conjunction => rfl
  | or first later => rfl

theorem Disjunction.leading_prepend (term : Term) (disjunction : Disjunction) :
    (disjunction.prepend term).leading = term.operand :: disjunction.leading := by
  cases disjunction with
  | last conjunction => rfl
  | or first later => rfl

theorem Disjunction.trailing_prepend (term : Term) (disjunction : Disjunction) :
    (disjunction.prepend term).trailing = disjunction.trailing := by
  cases disjunction with
  | last conjunction => rfl
  | or first later => rfl

/-- The disjuncts of two rows in one. -/
theorem Disjunction.alternatives_followed (later : Option Disjunction)
    (disjunction : Disjunction) : (disjunction.followed later).alternatives =
      disjunction.alternatives ++ (later.map Disjunction.alternatives).getD [] := by
  induction disjunction using Disjunction.followed.induct with
  | case1 conjunction =>
      cases later with
      | none => exact (List.append_nil _).symm
      | some later => rfl
  | case2 first others induction =>
      rw [Disjunction.followed, Disjunction.alternatives, induction, Disjunction.alternatives,
        List.append_assoc]

namespace Frame

/-- Frames that lead to the same disjuncts, whatever is read in front of them. -/
inductive Alike : Frame → Frame → Prop where
  | blank : Alike .blank .blank
  | and {left right : Disjunction} (alike : left.Alike right) :
    Alike (.linked .and left) (.linked .and right)
  | or {left right : Disjunction} (same : left.alternatives = right.alternatives) :
    Alike (.linked .or left) (.linked .or right)
  | whole {left right : Disjunction} (alike : left.Alike right) :
    Alike (.whole left) (.whole right)

theorem Alike.refl (frame : Frame) : frame.Alike frame := by
  have same (disjunction : Disjunction) : disjunction.Alike disjunction := ⟨rfl, rfl, rfl⟩
  cases frame with
  | blank => exact .blank
  | whole disjunction => exact .whole (same disjunction)
  | linked link later =>
      cases link with
      | and => exact .and (same later)
      | or => exact .or rfl

theorem Alike.before {frame frame' : Frame} {term term' : Term} {read : Disjunction}
    (alike : frame.Alike frame') (same : term.Alike term') (due : frame.before? term = some read) :
    ∃ read', frame'.before? term' = some read' ∧ read.Alike read' := by
  cases alike with
  | blank =>
      obtain rfl := Option.some.inj due
      exact ⟨_, rfl, same.alternatives, by simp [Disjunction.leading, Conjunction.operands,
        same.operand], rfl⟩
  | @and left right alike =>
      obtain rfl := Option.some.inj due
      refine ⟨_, rfl, ?_, ?_, ?_⟩
      · rw [left.alternatives_prepend, right.alternatives_prepend, same.operand, alike.leading,
          alike.trailing]
      · rw [left.leading_prepend, right.leading_prepend, same.operand, alike.leading]
      · rw [left.trailing_prepend, right.trailing_prepend, alike.trailing]
  | or later =>
      obtain rfl := Option.some.inj due
      refine ⟨_, rfl, ?_, ?_, later⟩
      · rw [Disjunction.alternatives, Disjunction.alternatives, same.alternatives, later]
      · simp [Disjunction.leading, Conjunction.operands, same.operand]
  | whole _ => cases due

/-- Alike frames stay alike when the same token is read. -/
theorem alike_step {token : Token} {frames frames' after : List Frame}
    (alike : List.Forall₂ Alike frames frames') (moved : step token frames = some after) :
    ∃ after', step token frames' = some after' ∧ List.Forall₂ Alike after after' := by
  cases token with
  | closing =>
      obtain rfl := Option.some.inj moved
      exact ⟨_, rfl, .cons .blank alike⟩
  | atom text =>
      obtain _ | ⟨first, outer⟩ := alike
      · cases moved
      · obtain ⟨read, due, rfl⟩ := Option.map_eq_some_iff.mp moved
        obtain ⟨read', due', same⟩ := first.before (.refl _) due
        exact ⟨_, by rw [step, due']; rfl, .cons (.whole same) outer⟩
  | connective link =>
      obtain _ | ⟨_ | _ | _ | same, outer⟩ := alike
      case cons.whole =>
        obtain rfl := Option.some.inj moved
        cases link with
        | and => exact ⟨_, rfl, .cons (.and same) outer⟩
        | or => exact ⟨_, rfl, .cons (.or same.alternatives) outer⟩
      all_goals cases moved
  | opening =>
      obtain _ | ⟨_ | _ | _ | same, _ | ⟨second, outer⟩⟩ := alike
      case cons.whole.cons =>
        obtain ⟨read, due, rfl⟩ := Option.map_eq_some_iff.mp moved
        obtain ⟨read', due', later⟩ := second.before (.group same.alternatives) due
        exact ⟨_, by rw [step, due']; rfl, .cons (.whole later) outer⟩
      all_goals cases moved

theorem alike_read {tokens : List Token} {frames frames' after : List Frame}
    (alike : List.Forall₂ Alike frames frames') (run : read tokens frames = some after) :
    ∃ after', read tokens frames' = some after' ∧ List.Forall₂ Alike after after' := by
  induction tokens generalizing after with
  | nil =>
      obtain rfl := Option.some.inj run
      exact ⟨frames', rfl, alike⟩
  | cons token rest induction =>
      obtain ⟨middle, before, moved⟩ := Option.bind_eq_some_iff.mp run
      obtain ⟨middle', before', between⟩ := induction before
      obtain ⟨after', moved', still⟩ := alike_step between moved
      exact ⟨after', Option.bind_eq_some_iff.mpr ⟨middle', before', moved'⟩, still⟩

theorem forall₂_alike_refl (frames : List Frame) : List.Forall₂ Alike frames frames :=
  List.forall₂_same.mpr fun frame _ => .refl frame

/-- In front of a whole disjunct, frames with the same disjuncts become alike. -/
theorem alike_step_of_alternatives {token : Token} {outer after : List Frame}
    {left right : Disjunction} (ends : token = .opening ∨ token = .connective .or)
    (same : left.alternatives = right.alternatives)
    (moved : step token (.whole left :: outer) = some after) :
    ∃ after', step token (.whole right :: outer) = some after' ∧
      List.Forall₂ Alike after after' := by
  rcases ends with rfl | rfl
  · obtain _ | ⟨frame, outer⟩ := outer
    · cases moved
    · obtain ⟨read, due, rfl⟩ := Option.map_eq_some_iff.mp moved
      obtain ⟨read', due', later⟩ := (Alike.refl frame).before (.group same) due
      refine ⟨_, ?_, .cons (.whole later) (forall₂_alike_refl outer)⟩
      exact Option.map_eq_some_iff.mpr ⟨read', due', rfl⟩
  · obtain rfl := Option.some.inj moved
    exact ⟨_, rfl, .cons (.or same) (forall₂_alike_refl outer)⟩

/-- What is read in front of a disjunct hangs on its disjuncts alone. -/
theorem read_before {before : List Token} {outer : List Frame} {left right found : Disjunction}
    (opens : Token.OpensDisjunct before) (same : left.alternatives = right.alternatives)
    (run : read before (.whole left :: outer) = some [.whole found]) :
    ∃ other : Disjunction, read before (.whole right :: outer) = some [.whole other] ∧
      found.alternatives = other.alternatives := by
  rcases opens.eq_nil_or_concat with rfl | ⟨front, token, rfl, ends⟩
  · obtain ⟨rfl, rfl⟩ : left = found ∧ outer = [] := by simpa [read] using run
    exact ⟨right, rfl, same⟩
  · rw [read_append] at run ⊢
    obtain ⟨frames, moved, rest⟩ := Option.bind_eq_some_iff.mp run
    obtain ⟨frames', moved', together⟩ := alike_step_of_alternatives ends same moved
    obtain ⟨after, run', _ | ⟨_ | _ | _ | last, _ | _⟩⟩ := alike_read together rest
    exact ⟨_, Option.bind_eq_some_iff.mpr ⟨frames', moved', run'⟩, last.alternatives⟩

/-- In front of the end of a disjunct a frame is blank, or an `or` follows. -/
theorem exists_ofLater {after : List Token} {frames : List Frame}
    (closes : Token.ClosesDisjunct after) (run : read after [.blank] = some frames) :
    ∃ later outer, frames = .ofLater later :: outer := by
  rcases closes with rfl | closing | link
  · obtain rfl := Option.some.inj run
    exact ⟨none, [], rfl⟩
  · obtain ⟨rest, rfl⟩ := List.head?_eq_some_iff.mp closing
    obtain ⟨middle, -, moved⟩ := Option.bind_eq_some_iff.mp run
    obtain rfl := Option.some.inj moved
    exact ⟨none, middle, rfl⟩
  · obtain ⟨rest, rfl⟩ := List.head?_eq_some_iff.mp link
    obtain ⟨middle, -, moved⟩ := Option.bind_eq_some_iff.mp run
    obtain _ | ⟨_ | _ | later, outer⟩ := middle
    case cons.whole =>
      obtain rfl := Option.some.inj moved
      exact ⟨some later, outer, rfl⟩
    all_goals cases moved

/-- Only a whole frame has a connective or an opening parenthesis in front of it. -/
theorem exists_whole_of_step {token : Token} {top : Frame} {outer after : List Frame}
    (ends : token = .opening ∨ token = .connective .or)
    (moved : step token (top :: outer) = some after) : ∃ read, top = .whole read := by
  cases top with
  | whole read => exact ⟨read, rfl⟩
  | blank => rcases ends with rfl | rfl <;> cases moved
  | linked link later => rcases ends with rfl | rfl <;> cases moved

/-- Where a disjunct begins, the innermost frame is whole. -/
theorem exists_whole_of_opens {before : List Token} {top : Frame} {outer : List Frame}
    {found : Disjunction} (opens : Token.OpensDisjunct before)
    (run : read before (top :: outer) = some [.whole found]) : ∃ read, top = .whole read := by
  rcases opens.eq_nil_or_concat with rfl | ⟨front, token, rfl, ends⟩
  · exact ⟨found, List.head_eq_of_cons_eq (Option.some.inj run)⟩
  · rw [read_append] at run
    obtain ⟨after, moved, -⟩ := Option.bind_eq_some_iff.mp run
    exact exists_whole_of_step ends moved

theorem eq_whole_of_followed {frame : Frame} {later : Option Disjunction} {read : Disjunction}
    (whole : frame.followed later = .whole read) : ∃ core, frame = .whole core := by
  cases frame with
  | blank => cases later <;> cases whole
  | linked link others => cases whole
  | whole core => exact ⟨core, rfl⟩

end Frame

namespace Disjunction

variable {before inner after : List Token}

/-- One row of whole disjuncts may stand for another with the same disjuncts. -/
theorem exists_tokens_of_alternatives {found : Disjunction} (left right : Disjunction)
    (opens : Token.OpensDisjunct before) (closes : Token.ClosesDisjunct after)
    (same : left.alternatives = right.alternatives)
    (spelled : found.tokens = before ++ (left.tokens ++ after)) :
    ∃ other : Disjunction, other.tokens = before ++ (right.tokens ++ after) ∧
      found.alternatives = other.alternatives := by
  have run := Frame.read_eq_whole_iff.mpr spelled
  rw [Frame.read_append, Frame.read_append] at run
  obtain ⟨middle, inner_run, before_run⟩ := Option.bind_eq_some_iff.mp run
  obtain ⟨frames, after_run, left_run⟩ := Option.bind_eq_some_iff.mp inner_run
  -- in front of `after` the reader waits for a disjunct, whichever row comes
  obtain ⟨later, outer, rfl⟩ := Frame.exists_ofLater closes after_run
  obtain rfl := Option.some.inj ((left.read_tokens outer later).symm.trans left_run)
  have followed : (left.followed later).alternatives = (right.followed later).alternatives := by
    rw [left.alternatives_followed, right.alternatives_followed, same]
  obtain ⟨other, other_run, alternatives⟩ := Frame.read_before opens followed before_run
  refine ⟨other, Frame.read_eq_whole_iff.mp ?_, alternatives⟩
  rw [Frame.read_append, Frame.read_append]
  refine Option.bind_eq_some_iff.mpr ⟨_, ?_, other_run⟩
  exact Option.bind_eq_some_iff.mpr ⟨_, after_run, right.read_tokens outer later⟩

/-- Balanced tokens in parentheses are a disjunction. -/
theorem exists_tokens_of_enclosed {found : Disjunction} (balanced : Token.IsBalanced inner)
    (spelled : found.tokens = before ++ (.opening :: (inner ++ .closing :: after))) :
    ∃ core : Disjunction, core.tokens = inner := by
  have run := Frame.read_eq_whole_iff.mpr spelled
  rw [Frame.read_append, Frame.read, Frame.read_append, Frame.read] at run
  obtain ⟨middle, open_run, -⟩ := Option.bind_eq_some_iff.mp run
  obtain ⟨frames, inner_run, moved⟩ := Option.bind_eq_some_iff.mp open_run
  obtain ⟨closed, close_run, inner_run⟩ := Option.bind_eq_some_iff.mp inner_run
  obtain ⟨outer, -, close_run⟩ := Option.bind_eq_some_iff.mp close_run
  obtain rfl := Option.some.inj close_run
  obtain ⟨frame, held, rfl⟩ := Frame.exists_frame_of_balanced none balanced inner_run
  obtain ⟨read, whole⟩ := Frame.exists_whole_of_step (.inl rfl) moved
  obtain ⟨core, rfl⟩ := Frame.eq_whole_of_followed whole
  exact ⟨core, held⟩

/-- Balanced tokens from the beginning of a disjunct to the end of one are a disjunction. -/
theorem exists_tokens_of_between {found : Disjunction} (balanced : Token.IsBalanced inner)
    (opens : Token.OpensDisjunct before) (closes : Token.ClosesDisjunct after)
    (spelled : found.tokens = before ++ (inner ++ after)) :
    ∃ core : Disjunction, core.tokens = inner := by
  have run := Frame.read_eq_whole_iff.mpr spelled
  rw [Frame.read_append, Frame.read_append] at run
  obtain ⟨middle, inner_run, before_run⟩ := Option.bind_eq_some_iff.mp run
  obtain ⟨frames, after_run, inner_run⟩ := Option.bind_eq_some_iff.mp inner_run
  obtain ⟨later, outer, rfl⟩ := Frame.exists_ofLater closes after_run
  obtain ⟨frame, held, rfl⟩ := Frame.exists_frame_of_balanced later balanced inner_run
  obtain ⟨read, whole⟩ := Frame.exists_whole_of_opens opens before_run
  obtain ⟨core, rfl⟩ := Frame.eq_whole_of_followed whole
  exact ⟨core, held⟩

/-- A disjunction in parentheses nests no less deep than it does without them. -/
theorem nesting_le_enclosed (core : Disjunction) (before after : List Token) :
    Token.nesting (before ++ (core.tokens ++ after)) ≤
      Token.nesting (before ++ .opening :: (core.tokens ++ .closing :: after)) := by
  refine Token.deepest_append_le (fun depth => ?_) before 0
  rw [Token.deepest, core.deepest_tokens depth after,
    core.deepest_tokens (depth + 1) (.closing :: after), Token.deepest, Nat.add_sub_cancel]
  omega

/-- The parentheses around whole disjuncts may be left out. -/
theorem exists_tokens_without {found : Disjunction} (balanced : Token.IsBalanced inner)
    (opens : Token.OpensDisjunct before) (closes : Token.ClosesDisjunct after)
    (spelled : found.tokens = before ++ .opening :: (inner ++ .closing :: after)) :
    inner ≠ [] ∧ ∃ other : Disjunction, other.tokens = before ++ (inner ++ after) ∧
      found.alternatives = other.alternatives ∧
        Token.nesting other.tokens ≤ Token.nesting found.tokens := by
  obtain ⟨core, rfl⟩ := exists_tokens_of_enclosed balanced spelled
  have group : found.tokens =
      before ++ ((Disjunction.last (.last (.group core))).tokens ++ after) := by
    simp [spelled, Disjunction.tokens, Conjunction.tokens, Term.tokens]
  obtain ⟨other, without, same⟩ :=
    exists_tokens_of_alternatives (.last (.last (.group core))) core opens closes rfl group
  refine ⟨core.tokens_ne_nil, other, without, same, ?_⟩
  rw [without, spelled]
  exact core.nesting_le_enclosed before after

/-- Whole disjuncts may be put in parentheses. -/
theorem exists_tokens_within {found : Disjunction} (balanced : Token.IsBalanced inner)
    (opens : Token.OpensDisjunct before) (closes : Token.ClosesDisjunct after)
    (spelled : found.tokens = before ++ (inner ++ after)) :
    ∃ other : Disjunction, other.tokens = before ++ .opening :: (inner ++ .closing :: after) := by
  obtain ⟨core, rfl⟩ := exists_tokens_of_between balanced opens closes spelled
  obtain ⟨other, within, -⟩ :=
    exists_tokens_of_alternatives core (.last (.last (.group core))) opens closes rfl spelled
  refine ⟨other, ?_⟩
  simp [within, Disjunction.tokens, Conjunction.tokens, Term.tokens]

/-- A lone test has no parentheses. -/
theorem ne_test_of_opening {found : Disjunction}
    (spelled : found.tokens = before ++ .opening :: after) : ∀ text, found ≠ .test text := by
  rintro text rfl
  have opening : Token.opening ∈ (test text).tokens := by simp [spelled]
  cases opening with
  | tail _ none => cases none

/-- Tokens within a lone test are all of it. -/
theorem eq_of_test_tokens {text : Text} (some : inner ≠ [])
    (spelled : (test text).tokens = before ++ (inner ++ after)) :
    before = [] ∧ inner = [.atom text] ∧ after = [] := by
  obtain ⟨first, rest, rfl⟩ := List.exists_cons_of_ne_nil some
  have lone : before ++ first :: (rest ++ after) = [.atom text] := spelled.symm
  obtain ⟨rfl, rfl, others⟩ : before = [] ∧ first = .atom text ∧ rest ++ after = [] := by
    simpa [List.append_eq_singleton_iff] using lone
  obtain ⟨rfl, rfl⟩ := List.append_eq_nil_iff.mp others
  exact ⟨rfl, rfl, rfl⟩

end Disjunction

end Grammar

namespace Node

variable {before inner after : List Token}

/--
Tokens with parentheses around whole disjuncts have a logic tree exactly if they have one without
them, and it is the same tree up to its numbers. Only a lone test is its own tree without
parentheses and a disjunct with them.
-/
theorem logicTree_enclosed (balanced : Token.IsBalanced inner)
    (opens : Token.OpensDisjunct before) (closes : Token.ClosesDisjunct after)
    (within : Token.nesting (before ++ [.opening] ++ inner ++ [.closing] ++ after) ≤ 256)
    (next next' : UInt32) :
    ((∃ tree stop, (logicTree (before ++ [.opening] ++ inner ++ [.closing] ++ after)).run next =
        .ok (tree, stop)) ↔
      ∃ tree stop, (logicTree (before ++ inner ++ after)).run next' = .ok (tree, stop)) ∧
    ∀ tree stop tree' stop',
      (logicTree (before ++ [.opening] ++ inner ++ [.closing] ++ after)).run next =
        .ok (tree, stop) →
      (logicTree (before ++ inner ++ after)).run next' = .ok (tree', stop') →
      ((∀ text, ¬(before = [] ∧ inner = [.atom text] ∧ after = [])) →
        tree.erased = tree'.erased) ∧
      ∀ text, before = [] ∧ inner = [.atom text] ∧ after = [] →
        tree.erased = .bare .root [.bare .disjunct [.bare (.atom text) []]] ∧
          tree'.erased = .bare (.atom text) [] := by
  simp only [List.append_assoc, List.cons_append, List.nil_append] at within ⊢
  refine ⟨⟨?_, ?_⟩, ?_⟩
  · rintro ⟨tree, stop, built⟩
    obtain ⟨limited, found, spelled⟩ := Grammar.exists_tokens_of_logicTree built
    obtain ⟨-, other, without, -, less⟩ :=
      found.exists_tokens_without balanced opens closes spelled
    rw [spelled] at less
    obtain ⟨tree', stop', built', -⟩ := other.logicTree_tokens (less.trans limited) next'
    exact ⟨tree', stop', without ▸ built'⟩
  · rintro ⟨tree', stop', built'⟩
    obtain ⟨-, found, spelled⟩ := Grammar.exists_tokens_of_logicTree built'
    obtain ⟨other, enclosed⟩ := found.exists_tokens_within balanced opens closes spelled
    obtain ⟨tree, stop, built, -⟩ := other.logicTree_tokens (enclosed ▸ within) next
    exact ⟨tree, stop, enclosed ▸ built⟩
  · intro tree stop tree' stop' built built'
    obtain ⟨-, found, spelled⟩ := Grammar.exists_tokens_of_logicTree built
    obtain ⟨some, other, without, same, -⟩ :=
      found.exists_tokens_without balanced opens closes spelled
    rw [← spelled] at built
    rw [← without] at built'
    rw [Grammar.Disjunction.erased_of_logicTree built,
      Grammar.Disjunction.erased_of_logicTree built',
      found.tree_of_ne_test (Grammar.Disjunction.ne_test_of_opening spelled), same]
    constructor
    · intro several
      rw [other.tree_of_ne_test]
      rintro text rfl
      exact several text (Grammar.Disjunction.eq_of_test_tokens some without)
    · rintro text ⟨rfl, rfl, rfl⟩
      obtain rfl := other.eq_test_of_tokens without
      exact ⟨rfl, rfl⟩

/-- In `x and ((a or (b)) or c)` the parentheses around `a or (b)` are redundant. -/
theorem logicTree_enclosed_disjuncts :
    let before : List Token := [.atom ['x'], .connective .and, .opening]
    let inner : List Token :=
      [.atom ['a'], .connective .or, .opening, .atom ['b'], .closing]
    let after : List Token := [.connective .or, .atom ['c'], .closing]
    Token.IsBalanced inner ∧ Token.OpensDisjunct before ∧ Token.ClosesDisjunct after ∧
      Token.nesting (before ++ [.opening] ++ inner ++ [.closing] ++ after) ≤ 256 ∧
      ∃ tree stop tree' stop',
        (logicTree (before ++ [.opening] ++ inner ++ [.closing] ++ after)).run 1 =
          .ok (tree, stop) ∧
        (logicTree (before ++ inner ++ after)).run 1 = .ok (tree', stop') ∧
        tree.erased = tree'.erased := by
  intro before inner after
  have balanced : Token.IsBalanced inner := ⟨by decide, rfl⟩
  have opens : Token.OpensDisjunct before := .inr (.inl rfl)
  have closes : Token.ClosesDisjunct after := .inr (.inr rfl)
  have within : Token.nesting (before ++ [.opening] ++ inner ++ [.closing] ++ after) ≤ 256 := by
    decide
  have redundant := logicTree_enclosed balanced opens closes within 1 1
  have accepted : ∃ tree stop, (logicTree (before ++ inner ++ after)).run 1 = .ok (tree, stop) :=
    ⟨_, _, rfl⟩
  obtain ⟨tree, stop, built⟩ := redundant.1.mpr accepted
  obtain ⟨tree', stop', built'⟩ := accepted
  have same := (redundant.2 tree stop tree' stop' built built').1
    fun text lone => List.cons_ne_nil _ _ lone.1
  exact ⟨balanced, opens, closes, within, tree, stop, tree', stop', built, built', same⟩

end Node

end DataCondition
