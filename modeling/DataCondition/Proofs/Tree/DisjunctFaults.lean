import DataCondition.Proofs.Token.Neighbours
import DataCondition.Proofs.Tree.Disjunction
import DataCondition.Proofs.Tree.Parentheses

/-!
# Where gathering disjuncts fails

Groups are gathered when the run around them is over, but their faults are met in the order of the
tokens. Gathering fails with the first fault that two neighbouring tokens show.
-/

namespace DataCondition

namespace Token

variable {next : UInt32} {front back : List Token}

/-- The first fault behind the gap between `front` and the tokens that follow. -/
def laterFault? (next : UInt32) (front : List Token) : List Token → Option Error
  | [] => none
  | token :: back => firstFault? next (front ++ [token]) back

/-- Whether an operand is due: at the start and behind an opening parenthesis or an `or`. -/
def IsDue (front : List Token) : Prop :=
  front.getLast? = none ∨ front.getLast? = some .opening ∨
    front.getLast? = some (.connective .or)

/-- Whether no operand is due behind tokens. -/
def IsSettled (front : List Token) : Prop :=
  ∃ token, front.getLast? = some token ∧ token ≠ .opening ∧ token ≠ .connective .or

/-- Whether tokens begin with the end of a group, or there are none. -/
def EndsGroup (later : List Token) : Prop :=
  later.head? = none ∨ later.head? = some .closing

theorem isSettled_concat (front : List Token) {token : Token} (other : token ≠ .opening)
    (apart : token ≠ .connective .or) : IsSettled (front ++ [token]) :=
  ⟨token, by simp, other, apart⟩

theorem isDue_concat_or (front : List Token) : IsDue (front ++ [.connective .or]) :=
  .inr (.inr (List.getLast?_concat ..))

theorem isDue_concat_opening (front : List Token) : IsDue (front ++ [.opening]) :=
  .inr (.inl (List.getLast?_concat ..))

theorem firstFault?_of_isSettled (settled : IsSettled front) :
    firstFault? next front back = laterFault? next front back := by
  obtain ⟨token, last, other, apart⟩ := settled
  have quiet : faultBetween? next front back = none := by
    rw [faultBetween?, last]
    unfold pairFault?
    split <;> simp_all
  cases back with
  | nil => exact quiet
  | cons token back =>
      rw [firstFault?_cons, quiet]
      rfl

theorem firstFault?_operand (next : UInt32) (front back : List Token) (token : Token)
    (other : token ≠ .closing) (apart : token ≠ .connective .or) :
    firstFault? next front (token :: back) = firstFault? next (front ++ [token]) back := by
  have quiet : faultBetween? next front (token :: back) = none := by
    rw [faultBetween?, List.head?_cons]
    unfold pairFault?
    split <;> simp_all
  rw [firstFault?_cons, quiet]
  rfl

theorem firstFault?_of_isDue_or (next : UInt32) (due : IsDue front) (back : List Token) :
    firstFault? next front (.connective .or :: back) = some (.missingOperand .or) := by
  have here : faultBetween? next front (.connective .or :: back) = some (.missingOperand .or) := by
    rw [faultBetween?, List.head?_cons]
    rcases due with before | before | before <;> rw [before] <;> rfl
  rw [firstFault?_cons, here]
  rfl

theorem firstFault?_or_endsGroup (next : UInt32) (before : front.getLast? = some (.connective .or))
    (ends : EndsGroup back) : firstFault? next front back = some (.missingOperand .or) := by
  have here : faultBetween? next front back = some (.missingOperand .or) := by
    rw [faultBetween?, before]
    rcases ends with behind | behind <;> rw [behind] <;> rfl
  cases back with
  | nil => exact here
  | cons token back =>
      rw [firstFault?_cons, here]
      rfl

theorem firstFault?_hollow (next : UInt32) (front back : List Token) :
    firstFault? next front (.opening :: .closing :: back) =
      some (.emptyGroup (numberAfter next front)) := by
  rw [firstFault?_operand next front _ .opening nofun nofun, firstFault?_cons,
    faultBetween?]
  simp [pairFault?]

end Token

namespace Node

open Token (numberAfter firstFault? laterFault? IsDue IsSettled EndsGroup)
open DataCondition.Numbering (Reports reports_pure reports_throw)

theorem endsRun_numberedAll (owner : Nat) (next : UInt32) (row : List Node) :
    endsRun (numberedAll owner next row) = endsRun row := by
  cases row with
  | nil => rw [numberedAll]
  | cons node rest =>
      rw [numberedAll, endsRun, endsRun, isConnective_numbered]

theorem numberAfter_spelling {node : Node} (nested : node.isNested) (next : UInt32)
    (front : List Token) :
    numberAfter next (front ++ node.spelling) = numberAfter next front + 1 + node.size := by
  have row : allNested [node] := by simpa [allNested] using nested
  have length := length_placed_spellingAll row
  rw [spellingAll, spellingAll, List.append_nil, sizeAll, sizeAll] at length
  rw [Token.numberAfter_append, length, Numbering.add_one_add]
  rfl

/-- Behind a node that is no `or` no operand is due. -/
theorem isSettled_spelling {node : Node} (nested : node.isNested)
    (operand : node.kind ≠ .connective .or) (front : List Token) :
    IsSettled (front ++ node.spelling) := by
  obtain ⟨_, _, kind, children⟩ := node
  cases kind with
  | atom text => exact Token.isSettled_concat front nofun nofun
  | connective link =>
      refine Token.isSettled_concat front nofun ?_
      rintro ⟨⟩
      exact operand rfl
  | group =>
      rw [spelling, ← List.append_assoc]
      exact Token.isSettled_concat _ nofun nofun
  | root | disjunct | conjunction => simp [isNested] at nested

theorem spelling_of_or {node : Node} (separator : node.kind = .connective .or) :
    node.spelling = [.connective .or] := by
  obtain ⟨_, _, kind, children⟩ := node
  obtain rfl : kind = .connective .or := separator
  rw [spelling]

/-- A test or an `and` has no fault in front of it. -/
theorem firstFault?_of_ne_group {node : Node} {next : UInt32} {front back : List Token}
    (nested : node.isNested) (operand : node.kind ≠ .connective .or) (other : node.kind ≠ .group) :
    firstFault? next front (node.spelling ++ back) =
      firstFault? next (front ++ node.spelling) back := by
  obtain ⟨_, _, kind, children⟩ := node
  cases kind with
  | atom text => exact Token.firstFault?_operand next front back (.atom text) nofun nofun
  | connective link =>
      have isAnd : Token.connective link ≠ .connective .or := by
        rintro ⟨⟩
        exact operand rfl
      exact Token.firstFault?_operand next front back (.connective link) nofun isAnd
  | group => exact absurd rfl other
  | root | disjunct | conjunction => simp [isNested] at nested

/-- A group has the faults inside it, or it has nothing inside; then come those behind it. -/
theorem reports_group {α : Type} {next : UInt32} {owner above : Nat} {children : List Node}
    {front back : List Token} {continued : List Node → Numbering α} {later : Option Error}
    (inside : children ≠ [] →
      Reports
        (disjuncts owner (numberedAll above (numberAfter next (front ++ [.opening])) children))
        (firstFault? next (front ++ [.opening]) (spellingAll children ++ .closing :: back))
        (laterFault? next (front ++ [.opening] ++ spellingAll children) (.closing :: back)))
    (behind : ∀ gathered, Reports (continued gathered)
      (firstFault? next (front ++ (.opening :: spellingAll children ++ [.closing])) back) later) :
    Reports
      (if (numberedAll above (numberAfter next front + 1) children).isEmpty then
        throw (.emptyGroup (numberAfter next front))
      else
        disjuncts owner (numberedAll above (numberAfter next front + 1) children) >>= continued)
      (firstFault? next front (.opening :: spellingAll children ++ [.closing] ++ back)) later := by
  cases children with
  | nil =>
      rw [numberedAll, if_pos List.isEmpty_nil]
      simp only [spellingAll, List.cons_append, List.nil_append, Token.firstFault?_hollow]
      exact reports_throw _ _
  | cons child children =>
      have several : (numberedAll above (numberAfter next front + 1) (child :: children)).isEmpty =
          false := by
        rw [numberedAll]
        rfl
      rw [if_neg (by simp [several]), List.append_assoc, List.cons_append,
        Token.firstFault?_operand next front _ .opening nofun nofun]
      have run := inside (List.cons_ne_nil _ _)
      rw [Token.numberAfter_concat next front .opening nofun] at run
      refine run.bind fun gathered => ?_
      simpa [laterFault?] using behind gathered

mutual

/-- Gathering the disjuncts of a row reports the first fault from its start to its end. -/
theorem reports_disjuncts (next : UInt32) : ∀ (row : List Node) (owner above : Nat)
    {front later : List Token}, allNested row → IsDue front →
    (row = [] → front.getLast? = some (.connective .or)) → EndsGroup later →
    Reports (disjuncts owner (numberedAll above (numberAfter next front) row))
      (firstFault? next front (spellingAll row ++ later))
      (laterFault? next (front ++ spellingAll row) later)
  | [], _, _, _, _, _, _, started, ends => by
      rw [numberedAll, disjuncts, spellingAll, List.nil_append,
        Token.firstFault?_or_endsGroup next (started rfl) ends]
      exact reports_throw _ _
  | ⟨id, parent, kind, children⟩ :: rest, owner, above, front, later, nested, due, _, ends => by
      obtain ⟨first, others⟩ : (Node.mk id parent kind children).isNested ∧ allNested rest := by
        simpa [allNested] using nested
      rw [numberedAll, numbered, disjuncts, ← numberAfter_spelling first, spellingAll,
        List.append_assoc, ← List.append_assoc front]
      by_cases separator : kind = .connective .or
      · subst separator
        rw [if_pos rfl, spelling, List.singleton_append, Token.firstFault?_of_isDue_or next due]
        exact reports_throw _ _
      rw [if_neg separator]
      have settled := isSettled_spelling first separator front
      by_cases alone : kind = .group ∧ endsRun rest
      · obtain ⟨rfl, last⟩ := alone
        rw [if_pos ⟨rfl, by rwa [endsRun_numberedAll]⟩]
        have inner : allNested children := by simpa [isNested] using first
        refine reports_group (fun some => ?_) fun spliced => ?_
        · exact reports_disjuncts next children owner _ inner (Token.isDue_concat_opening front)
            (fun none => absurd none some) (.inr rfl)
        · exact (reports_later next rest owner above last others settled ends).bind fun _ =>
            reports_pure _ _
      · rw [if_neg (by rwa [endsRun_numberedAll])]
        refine Reports.fresh fun disjunct => ?_
        have here := reports_member next ⟨id, parent, kind, children⟩ disjunct above front
          (spellingAll rest ++ later) first separator
        rw [numbered] at here
        refine here.bind fun _ => ?_
        exact (reports_members next rest disjunct owner above others settled ends).bind fun _ =>
          reports_pure _ _
termination_by structural row => row

theorem reports_later (next : UInt32) : ∀ (rest : List Node) (owner above : Nat)
    {front later : List Token}, endsRun rest → allNested rest → IsSettled front →
    EndsGroup later →
    Reports (laterDisjuncts owner (numberedAll above (numberAfter next front) rest))
      (firstFault? next front (spellingAll rest ++ later))
      (laterFault? next (front ++ spellingAll rest) later)
  | [], _, _, _, _, _, _, settled, _ => by
      rw [numberedAll, laterDisjuncts_nil, spellingAll, List.nil_append, List.append_nil,
        Token.firstFault?_of_isSettled settled]
      exact reports_pure _ _
  | separator :: rest, owner, above, front, later, last, nested, settled, ends => by
      have isOr : separator.kind = .connective .or := by simpa [endsRun, isConnective] using last
      obtain ⟨first, others⟩ : separator.isNested ∧ allNested rest := by
        simpa [allNested] using nested
      rw [numberedAll, laterDisjuncts_cons, ← numberAfter_spelling first, spellingAll,
        List.append_assoc, ← List.append_assoc front, spelling_of_or isOr, List.singleton_append,
        Token.firstFault?_of_isSettled settled]
      exact reports_disjuncts next rest owner above others (Token.isDue_concat_or front)
        (fun _ => List.getLast?_concat ..) ends
termination_by structural rest => rest

theorem reports_members (next : UInt32) : ∀ (rest : List Node) (disjunct owner above : Nat)
    {front later : List Token}, allNested rest → IsSettled front → EndsGroup later →
    Reports (members disjunct owner (numberedAll above (numberAfter next front) rest))
      (firstFault? next front (spellingAll rest ++ later))
      (laterFault? next (front ++ spellingAll rest) later)
  | [], _, _, _, _, _, _, settled, _ => by
      rw [numberedAll, members, spellingAll, List.nil_append, List.append_nil,
        Token.firstFault?_of_isSettled settled]
      exact reports_pure _ _
  | node :: rest, disjunct, owner, above, front, later, nested, settled, ends => by
      obtain ⟨first, others⟩ : node.isNested ∧ allNested rest := by
        simpa [allNested] using nested
      rw [numberedAll, members, ← numberAfter_spelling first, isConnective_numbered, spellingAll,
        List.append_assoc, ← List.append_assoc front]
      by_cases separator : node.kind = .connective .or
      · rw [if_pos (by simpa [isConnective] using separator), spelling_of_or separator,
          List.singleton_append, Token.firstFault?_of_isSettled settled]
        exact (reports_disjuncts next rest owner above others (Token.isDue_concat_or front)
          (fun _ => List.getLast?_concat ..) ends).bind fun _ => reports_pure _ _
      · rw [if_neg (by simpa [isConnective] using separator)]
        have onward := isSettled_spelling first separator front
        refine (reports_member next node disjunct above front _ first separator).bind fun _ => ?_
        exact (reports_members next rest disjunct owner above others onward ends).bind fun _ =>
          reports_pure _ _
termination_by structural rest => rest

theorem reports_member (next : UInt32) : ∀ (node : Node) (disjunct above : Nat)
    (front later : List Token), node.isNested → node.kind ≠ .connective .or →
    Reports (member disjunct (node.numbered above (numberAfter next front)))
      (firstFault? next front (node.spelling ++ later))
      (firstFault? next (front ++ node.spelling) later)
  | ⟨id, parent, kind, children⟩, disjunct, above, front, later, nested, operand => by
      rw [numbered, member]
      by_cases isGroup : kind = .group
      · subst isGroup
        have inner : allNested children := by simpa [isNested] using nested
        rw [if_pos rfl]
        refine reports_group (fun some => ?_) fun gathered => reports_pure _ _
        exact reports_disjuncts next children _ _ inner (Token.isDue_concat_opening front)
          (fun none => absurd none some) (.inr rfl)
      · rw [if_neg isGroup, firstFault?_of_ne_group nested operand isGroup]
        exact reports_pure _ _
termination_by structural node => node

end

/-- Gathering the disjuncts of a tree of tokens reports their first fault. -/
theorem reports_gatherDisjuncts {row : List Node} (nested : allNested row) (some : row ≠ [])
    (next : UInt32) :
    Reports (gatherDisjuncts ⟨Nesting.rootId, none, .root, numberedAll Nesting.rootId next row⟩)
      (firstFault? next [] (spellingAll row)) none := by
  obtain ⟨node, rest, rfl⟩ := List.exists_cons_of_ne_nil some
  have run : Reports (disjuncts Nesting.rootId
      (numberedAll Nesting.rootId (numberAfter next []) (node :: rest)))
      (firstFault? next [] (spellingAll (node :: rest) ++ [])) none :=
    @reports_disjuncts next (node :: rest) Nesting.rootId Nesting.rootId [] [] nested (.inl rfl)
      (fun none => absurd none some) (.inl rfl)
  rw [List.append_nil, Token.numberAfter_nil] at run
  rw [gatherDisjuncts, if_neg (by simp [isAtom, atom?]), if_neg (by simp [isLeaf, numberedAll])]
  exact run.bind fun _ => reports_pure _ _

/--
Disjuncts are gathered in a tree of several tokens exactly if no pair of parentheses is empty and
every `or` has its operands. Otherwise the leftmost two neighbours that show such a fault decide
which error it is, and an empty pair is named by the node of its opening parenthesis.
-/
theorem gatherDisjuncts_outcome {tokens : List Token} {next after : UInt32} {tree : Node}
    (several : ∀ text, tokens ≠ [.atom text])
    (built : (ofTokens tokens).run next = .ok (tree, after)) (start : UInt32) :
    ((∃ result, (gatherDisjuncts tree).run start = .ok result) ↔
      ∀ gap, ¬Token.IsHollow tokens gap ∧ ¬Token.LacksOperand tokens gap) ∧
    ∀ gap, IsLeast {gap | Token.IsHollow tokens gap ∨ Token.LacksOperand tokens gap} gap →
      (Token.IsHollow tokens gap → ∃ node, tree.nodeAt? tokens (gap - 1) = some node ∧
        node.kind = .group ∧
        (gatherDisjuncts tree).run start = .error (.emptyGroup node.id)) ∧
      (Token.LacksOperand tokens gap →
        (gatherDisjuncts tree).run start = .error (.missingOperand .or)) := by
  have reports : Reports (gatherDisjuncts tree) (firstFault? next [] tokens) none := by
    obtain ⟨row, nested, some, rfl, rfl, -⟩ := exists_row_of_ofTokens several built
    exact reports_gatherDisjuncts nested some next
  refine ⟨?_, fun gap least => ⟨fun hollow => ?_, fun lacking => ?_⟩⟩
  · rw [← Token.firstFault?_eq_none_iff]
    exact reports.succeeds_iff start
  · obtain ⟨node, found, stands, number⟩ :=
      (isNestingOf_of_ofTokens built).exists_nodeAt? hollow.getElem?_eq nofun
    rw [Token.firstFault?_of_isLeast least, Token.faultBetween?_of_isHollow hollow, ← number]
      at reports
    exact ⟨node, found, kind_of_token?_opening stands, reports.eq_error start⟩
  · rw [Token.firstFault?_of_isLeast least, Token.faultBetween?_of_lacksOperand lacking] at reports
    exact reports.eq_error start

/-- In `a or ( b and ( ) ) or` the empty pair comes before the `or` that lacks an operand. -/
theorem gatherDisjuncts_outcome_hollow :
    let tokens : List Token := [.atom ['a'], .connective .or, .opening, .atom ['b'],
      .connective .and, .opening, .closing, .closing, .connective .or]
    (∀ text, tokens ≠ [.atom text]) ∧ ∃ tree node, (ofTokens tokens).run 1 = .ok (tree, 8) ∧
      IsLeast {gap | Token.IsHollow tokens gap ∨ Token.LacksOperand tokens gap} 6 ∧
      Token.IsHollow tokens 6 ∧ Token.LacksOperand tokens 9 ∧
      tree.nodeAt? tokens 5 = some node ∧ node.id = 6 ∧
      (gatherDisjuncts tree).run 8 = .error (.emptyGroup node.id) := by
  intro tokens
  have several : ∀ text, tokens ≠ [.atom text] := by simp [tokens]
  obtain ⟨tree, built⟩ : ∃ tree, (ofTokens tokens).run 1 = .ok (tree, 8) := ⟨_, rfl⟩
  have hollow : Token.IsHollow tokens 6 := by decide
  have least : IsLeast {gap | Token.IsHollow tokens gap ∨ Token.LacksOperand tokens gap} 6 := by
    refine ⟨.inl hollow, fun gap shown => Nat.le_of_not_lt fun earlier => ?_⟩
    have quiet : ∀ gap < 6, ¬(Token.IsHollow tokens gap ∨ Token.LacksOperand tokens gap) := by
      decide
    exact quiet gap earlier shown
  obtain ⟨node, found, -, fails⟩ :=
    ((gatherDisjuncts_outcome several built 8).2 6 least).1 hollow
  refine ⟨several, tree, node, built, least, hollow, by decide, found, ?_, fails⟩
  cases built
  cases found
  rfl

end Node

end DataCondition
