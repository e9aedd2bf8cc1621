import Mathlib.Order.Bounds.Basic
import DataCondition.Proofs.Grammar.Places
import DataCondition.Proofs.Token.Matching

/-!
# Which tokens have a tree of parentheses

Tokens have a tree if there are any, if they are balanced, and if they do not nest too deep; the
tree spells them again and is numbered from left to right. All other tokens are refused at a
parenthesis: where they nest too deep, else where one closes nothing, else where one stays open.
-/

namespace DataCondition

namespace Nesting

variable {front back tokens : List Token}

/-- A token that closes no more than is open is collected, whatever follows it. -/
theorem exists_collect_cons {token : Token} {opened : List Opened}
    (within : [token].count .closing ≤ opened.length) (position : Nat) (next : UInt32)
    (nodes : List Node) : ∃ opened' nodes' next',
      opened'.length = opened.length + [token].count .opening - [token].count .closing ∧
        ∀ rest, collect position opened nodes (token :: rest) next =
          collect (position + 1) opened' nodes' rest next' := by
  cases token with
  | opening => exact ⟨⟨next, position, nodes⟩ :: opened, [], next + 1, rfl, fun _ => rfl⟩
  | closing =>
      cases opened with
      | nil => simp at within
      | cons group outer =>
          exact ⟨outer, ⟨group.id, some (owner outer), .group, nodes.reverse⟩ :: group.before, next,
            rfl, fun _ => rfl⟩
  | atom text =>
      exact ⟨opened, ⟨next, some (owner opened), .atom text, []⟩ :: nodes, next + 1, rfl,
        fun _ => rfl⟩
  | connective link =>
      exact ⟨opened, ⟨next, some (owner opened), .connective link, []⟩ :: nodes, next + 1, rfl,
        fun _ => rfl⟩

/-- Tokens that close only what is open are collected, whatever follows them. -/
theorem exists_collect_append (opened : List Opened)
    (covered : Token.IsCovered opened.length front) (position : Nat) (next : UInt32)
    (nodes : List Node) : ∃ opened' nodes' next',
      opened'.length + front.count .closing = opened.length + front.count .opening ∧
        ∀ rest, collect position opened nodes (front ++ rest) next =
          collect (position + front.length) opened' nodes' rest next' := by
  induction front generalizing opened position next nodes with
  | nil => exact ⟨opened, nodes, next, rfl, fun rest => rfl⟩
  | cons token front induction =>
      obtain ⟨within, later⟩ := Token.isCovered_cons.mp covered
      obtain ⟨middle, collected, next', length, step⟩ :=
        exists_collect_cons within position next nodes
      rw [← length] at later
      obtain ⟨opened', nodes', after, depth, run⟩ :=
        induction middle later (position + 1) next' collected
      refine ⟨opened', nodes', after, ?_, fun rest => ?_⟩
      · rw [← List.singleton_append, List.count_append, List.count_append]
        omega
      · rw [List.cons_append, step, run, List.length_cons, Nat.add_assoc, Nat.add_comm 1]

/-- Behind balanced tokens all groups are closed that have been opened in them. -/
theorem exists_collect_balanced (balanced : Token.IsBalanced front) (next : UInt32) :
    ∃ nodes next', ∀ rest,
      collect 0 [] [] (front ++ rest) next = collect front.length [] nodes rest next' := by
  obtain ⟨covered, closed⟩ := Token.isBalanced_iff.mp balanced
  obtain ⟨opened, nodes, next', length, run⟩ := exists_collect_append [] covered 0 next []
  obtain rfl : opened = [] := List.length_eq_zero_iff.mp (by simp at length; omega)
  exact ⟨nodes, next', fun rest => by simpa using run rest⟩

theorem exists_collect_of_balanced (balanced : Token.IsBalanced tokens) (next : UInt32) :
    ∃ row after, collect 0 [] [] tokens next = .ok (row, after) := by
  obtain ⟨nodes, next', run⟩ := exists_collect_balanced balanced next
  have whole := run []
  rw [List.append_nil] at whole
  exact ⟨nodes.reverse, next', whole⟩

/-- Balanced tokens are spelled by a row of nested nodes. -/
theorem exists_row_of_balanced (balanced : Token.IsBalanced tokens) :
    ∃ row, Node.allNested row ∧ Node.spellingAll row = tokens := by
  obtain ⟨row, after, collected⟩ := exists_collect_of_balanced balanced 0
  obtain ⟨nested, spelled⟩ := spellingAll_of_collect collected rfl (by simp)
  exact ⟨row, nested, by simpa [openedSpelling, Node.spellingAll] using spelled⟩

/-- A closing parenthesis behind balanced tokens is unexpected. -/
theorem collect_of_unopened (balanced : Token.IsBalanced front) (next : UInt32) :
    collect 0 [] [] (front ++ .closing :: back) next =
      .error (.unbalanced .closing front.length) := by
  obtain ⟨nodes, next', run⟩ := exists_collect_balanced balanced next
  rw [run]
  rfl

/-- An opening parenthesis before balanced tokens stays open. -/
theorem collect_of_unclosed (covered : Token.IsCovered 0 (front ++ .opening :: back))
    (balanced : Token.IsBalanced back) (next : UInt32) :
    collect 0 [] [] (front ++ .opening :: back) next =
      .error (.unbalanced .opening front.length) := by
  have before : Token.IsCovered 0 front := fun start isPrefix =>
    covered start (isPrefix.trans (List.prefix_append _ _))
  obtain ⟨opened, nodes, next', -, run⟩ := exists_collect_append [] before 0 next []
  obtain ⟨row, nested, spelled⟩ := exists_row_of_balanced balanced
  rw [run, collect, Numbering.fresh_bind, ← List.append_nil back, ← spelled,
    collect_spellingAll row nested]
  simp [collect]

end Nesting

namespace Node

open DataCondition.Numbering (Drawn)

mutual

theorem drawn_numbered (owner : Nat) (next : UInt32) : ∀ node : Node,
    Drawn next (next + 1 + node.size) ((node.numbered owner next).nodes.map id)
  | ⟨_, _, _, children⟩ => by
      rw [nodes_eq, numbered, List.map_cons]
      exact .cons (drawn_numberedAll next (next + 1) children)
termination_by structural node => node

/-- The nodes of a row that is numbered in order have the next numbers, owners first. -/
theorem drawn_numberedAll (owner : Nat) (next : UInt32) : ∀ row : List Node,
    Drawn next (next + sizeAll row) (((numberedAll owner next row).flatMap nodes).map id)
  | [] => by
      rw [numberedAll, sizeAll, Numbering.add_zero]
      exact .nil next
  | node :: rest => by
      have first := drawn_numbered owner next node
      have others := drawn_numberedAll owner (next + 1 + node.size) rest
      rw [numberedAll, List.flatMap_cons, List.map_append, sizeAll, ← Numbering.add_add,
        ← Numbering.add_one_add]
      exact first.append others
termination_by structural row => row

end

mutual

theorem isLinked_numbered (owner : Nat) (next : UInt32) : ∀ node : Node,
    (node.numbered owner next).IsLinked
  | ⟨_, _, _, children⟩ => by
      rw [isLinked_iff, numbered]
      exact areOwned_numberedAll next (next + 1) children
termination_by structural node => node

theorem areOwned_numberedAll (owner : Nat) (next : UInt32) : ∀ row : List Node,
    AreOwned owner (numberedAll owner next row)
  | [] => by
      rw [numberedAll]
      exact areOwned_nil owner
  | node :: rest => by
      rw [numberedAll, areOwned_cons, ← isLinked_iff]
      refine ⟨?_, isLinked_numbered owner next node, areOwned_numberedAll owner _ rest⟩
      obtain ⟨_, _, _, _⟩ := node
      rfl
termination_by structural row => row

end

/-- The token that a node of a tree of parentheses stands for. -/
def token? (node : Node) : Option Token :=
  match node.kind with
  | .atom text => some (.atom text)
  | .connective link => some (.connective link)
  | .group => some .opening
  | .root | .disjunct | .conjunction => none

theorem kind_of_token?_opening {node : Node} (stands : node.token? = some .opening) :
    node.kind = .group := by
  unfold token? at stands
  split at stands
  next => cases stands
  next => cases stands
  next isGroup => exact isGroup
  next => cases stands
  next => cases stands
  next => cases stands

mutual

theorem map_token?_of_isNested : ∀ node : Node, node.isNested →
    node.nodes.map token? = (Token.placed node.spelling).map some
  | ⟨_, _, kind, children⟩, nested => by
      rw [nodes_eq, List.map_cons]
      cases kind with
      | atom _ | connective _ =>
          obtain rfl : children = [] := by simpa [isNested] using nested
          rfl
      | group =>
          have inside := map_token?_of_allNested children (by simpa [isNested] using nested)
          rw [inside]
          simp [token?, spelling, Token.placed]
      | root | disjunct | conjunction => simp [isNested] at nested
termination_by structural node => node

/-- The nodes of a nested row stand for the tokens that it spells, closing parentheses left out. -/
theorem map_token?_of_allNested : ∀ row : List Node, allNested row →
    (row.flatMap nodes).map token? = (Token.placed (spellingAll row)).map some
  | [], _ => rfl
  | node :: rest, nested => by
      obtain ⟨first, others⟩ : node.isNested ∧ allNested rest := by
        simpa [allNested] using nested
      rw [List.flatMap_cons, List.map_append, map_token?_of_isNested node first,
        map_token?_of_allNested rest others]
      simp [spellingAll, Token.placed]
termination_by structural row => row

end

theorem kind_ne_root_of_allNested {row : List Node} (nested : allNested row) :
    ∀ node ∈ row.flatMap nodes, node.kind ≠ .root := by
  intro node inside isRoot
  have found : node.token? ∈ (Token.placed (spellingAll row)).map some := by
    rw [← map_token?_of_allNested row nested]
    exact List.mem_map_of_mem inside
  simp [token?, isRoot] at found

theorem spellingAll_numberedAll (owner : Nat) (next : UInt32) (row : List Node) :
    spellingAll (numberedAll owner next row) = spellingAll row := by
  rw [← spellingAll_erasedAll, erasedAll_numberedAll, spellingAll_erasedAll]

/-- There is a node for every token but the closing parentheses. -/
theorem length_placed_spellingAll {row : List Node} (nested : allNested row) :
    (Token.placed (spellingAll row)).length = sizeAll row := by
  have tokens := congrArg List.length (map_token?_of_allNested row nested)
  rw [List.length_map, List.length_map, length_flatMap_nodes] at tokens
  exact tokens.symm

/-- What holds of the tree that tokens have while the counter goes from `next` to `after`. -/
structure IsNestingOf (tokens : List Token) (next after : UInt32) (tree : Node) : Prop where
  /-- Written out, the tree gives back its tokens. -/
  spelled : tree.spelling = tokens
  /-- All nodes but the root have the next numbers, owners first. -/
  numbers : Drawn next after ((tree.nodes.filter (·.kind ≠ .root)).map id)
  /-- These nodes stand for the tokens, closing parentheses left out. -/
  places : (tree.nodes.filter (·.kind ≠ .root)).map token? = (Token.placed tokens).map some
  top : tree.parent = none
  linked : tree.IsLinked
  /-- Only a lone test is its own tree. -/
  test : ∀ text, tree.kind = .atom text ↔ tokens = [.atom text]
  bare : tree.isAtom → tree.children = []

/-- The node for the token at this position, unless that is a closing parenthesis. -/
def nodeAt? (tree : Node) (tokens : List Token) (position : Nat) : Option Node :=
  (tree.nodes.filter (·.kind ≠ .root))[(Token.placed (tokens.take position)).length]?

/-- The node for a token stands for it, and its number counts the nodes before it. -/
theorem IsNestingOf.exists_nodeAt? {tokens : List Token} {next after : UInt32} {position : Nat}
    {tree : Node} {token : Token} (nesting : tree.IsNestingOf tokens next after)
    (found : tokens[position]? = some token) (other : token ≠ .closing) :
    ∃ node, tree.nodeAt? tokens position = some node ∧ node.token? = some token ∧
      node.id = Token.numberAfter next (tokens.take position) := by
  obtain ⟨front, back, rfl, rfl⟩ := Token.exists_append_of_getElem? found
  have placed : Token.placed (front ++ token :: back) =
      Token.placed front ++ token :: Token.placed back := by
    simp [Token.placed, other]
  have place := congrArg (·[(Token.placed front).length]?) nesting.places
  simp only [placed, List.getElem?_map, List.getElem?_append_right (Nat.le_refl _), Nat.sub_self,
    List.getElem?_cons_zero] at place
  obtain ⟨node, here, stands⟩ := Option.map_eq_some_iff.mp place
  have within := (List.getElem?_eq_some_iff.mp here).1
  have number := nesting.numbers.getElem?_eq (by rwa [List.length_map])
  rw [List.getElem?_map, here] at number
  rw [nodeAt?, List.take_left']
  · exact ⟨node, here, stands, Option.some.inj number⟩
  · rfl

theorem isNestingOf_test (text : Text) (next : UInt32) :
    IsNestingOf [.atom text] next (next + 1) ⟨next, none, .atom text, []⟩ where
  spelled := rfl
  numbers := .cons (.nil (next + 1))
  places := rfl
  top := rfl
  linked := isLinked_iff.mpr (areOwned_nil next)
  test text' := by simp
  bare _ := rfl

theorem isNestingOf_root {row : List Node} (nested : allNested row)
    (several : ∀ text, spellingAll row ≠ [.atom text]) (next : UInt32) :
    IsNestingOf (spellingAll row) next (next + sizeAll row)
      ⟨Nesting.rootId, none, .root, numberedAll Nesting.rootId next row⟩ := by
  have numbered : allNested (numberedAll Nesting.rootId next row) := by
    rwa [allNested_numberedAll]
  have inside := kind_ne_root_of_allNested numbered
  have below : ((numberedAll Nesting.rootId next row).flatMap nodes).filter (·.kind ≠ .root) =
      (numberedAll Nesting.rootId next row).flatMap nodes := by
    simpa using inside
  constructor
  case spelled => exact spellingAll_numberedAll _ next row
  case numbers =>
    rw [nodes_eq, List.filter_cons_of_neg (by simp), below]
    exact drawn_numberedAll _ next row
  case places =>
    rw [nodes_eq, List.filter_cons_of_neg (by simp), below, map_token?_of_allNested _ numbered,
      spellingAll_numberedAll]
  case top => rfl
  case linked => exact isLinked_iff.mpr (areOwned_numberedAll _ _ row)
  case test => exact fun text => by simp [several text]
  case bare => exact nofun

/-- Several tokens have a tree under a root, with their nodes numbered in order. -/
theorem exists_row_of_ofTokens {tokens : List Token} {next after : UInt32} {tree : Node}
    (several : ∀ text, tokens ≠ [.atom text])
    (built : ofTokens tokens next = .ok (tree, after)) :
    ∃ row, allNested row ∧ row ≠ [] ∧ spellingAll row = tokens ∧
      tree = ⟨Nesting.rootId, none, .root, numberedAll Nesting.rootId next row⟩ ∧
      after = next + sizeAll row := by
  have within := nesting_le_of_ofTokens built
  rcases ofTokens_eq_ok built with ⟨text, same, -⟩ | ⟨row, nested, rfl, -⟩
  · exact absurd same (several text)
  · have nonempty : spellingAll row ≠ [] := by
      intro none
      rw [none] at built
      cases built
    have run := ofTokens_spellingAll nested nonempty several within next
    obtain ⟨rfl, rfl⟩ := Prod.mk.inj (Except.ok.inj (run.symm.trans built))
    refine ⟨row, nested, ?_, rfl, rfl, rfl⟩
    rintro rfl
    exact nonempty rfl

/-- A tree of tokens spells them, and it is numbered in order. -/
theorem isNestingOf_of_ofTokens {tokens : List Token} {next after : UInt32} {tree : Node}
    (built : ofTokens tokens next = .ok (tree, after)) : tree.IsNestingOf tokens next after := by
  by_cases lone : ∃ text, tokens = [.atom text]
  · obtain ⟨text, rfl⟩ := lone
    obtain ⟨rfl, rfl⟩ : ⟨next, none, .atom text, []⟩ = tree ∧ next + 1 = after := by
      simpa [ofTokens] using built
    exact isNestingOf_test text next
  · have several : ∀ text, tokens ≠ [.atom text] := by simpa using lone
    obtain ⟨row, nested, -, rfl, rfl, rfl⟩ := exists_row_of_ofTokens several built
    exact isNestingOf_root nested several next

/-- Balanced tokens that do not nest too deep have a tree. -/
theorem exists_ofTokens_of_balanced {tokens : List Token} (nonempty : tokens ≠ [])
    (balanced : Token.IsBalanced tokens) (within : Token.nesting tokens ≤ Nesting.limit)
    (next : UInt32) : ∃ tree after, ofTokens tokens next = .ok (tree, after) := by
  by_cases lone : ∃ text, tokens = [.atom text]
  · obtain ⟨text, rfl⟩ := lone
    exact ⟨_, _, rfl⟩
  · obtain ⟨row, nested, rfl⟩ := Nesting.exists_row_of_balanced balanced
    exact ⟨_, _, ofTokens_spellingAll nested nonempty (by simpa using lone) within next⟩

theorem ofTokens_of_unopened {front back : List Token}
    (within : Token.nesting (front ++ .closing :: back) ≤ Nesting.limit)
    (balanced : Token.IsBalanced front) (next : UInt32) :
    ofTokens (front ++ .closing :: back) next = .error (.unbalanced .closing front.length) := by
  rw [ofTokens_several (by simp) (by simp [List.append_eq_singleton_iff]) within]
  exact Numbering.bind_of_error (Nesting.collect_of_unopened balanced next)

theorem ofTokens_of_unclosed {front back : List Token}
    (within : Token.nesting (front ++ .opening :: back) ≤ Nesting.limit)
    (covered : Token.IsCovered 0 (front ++ .opening :: back)) (balanced : Token.IsBalanced back)
    (next : UInt32) :
    ofTokens (front ++ .opening :: back) next = .error (.unbalanced .opening front.length) := by
  rw [ofTokens_several (by simp) (by simp [List.append_eq_singleton_iff]) within]
  exact Numbering.bind_of_error (Nesting.collect_of_unclosed covered balanced next)

/--
Tokens have a tree of parentheses exactly if there are any, they are balanced and nest at most 256
deep. The tree spells the tokens, its nodes are numbered in order, and every node names its owner.
-/
theorem ofTokens_succeeds_iff (tokens : List Token) (next : UInt32) :
    ((∃ tree after, (ofTokens tokens).run next = .ok (tree, after)) ↔
      tokens ≠ [] ∧ Token.IsBalanced tokens ∧ Token.nesting tokens ≤ 256) ∧
    ∀ tree after, (ofTokens tokens).run next = .ok (tree, after) →
      tree.IsNestingOf tokens next after := by
  refine ⟨⟨?_, ?_⟩, fun tree after built => isNestingOf_of_ofTokens built⟩
  · rintro ⟨tree, after, built⟩
    have within := nesting_le_of_ofTokens built
    have nonempty : tokens ≠ [] := by
      rintro rfl
      cases built
    refine ⟨nonempty, ?_, within⟩
    rcases Token.isBalanced_or_unmatched tokens with
      balanced | ⟨front, back, rfl, balanced⟩ | ⟨covered, front, back, rfl, balanced⟩
    · exact balanced
    · cases (ofTokens_of_unopened within balanced next).symm.trans built
    · cases (ofTokens_of_unclosed within covered balanced next).symm.trans built
  · rintro ⟨nonempty, balanced, within⟩
    exact exists_ofTokens_of_balanced nonempty balanced within next

/--
Tokens that are neither none nor a lone test are refused at the first parenthesis that nests 257
deep; if there is none, at the first one that closes nothing; if there is none either, at the last
one that stays open.
-/
theorem ofTokens_outcome {tokens : List Token} (nonempty : tokens ≠ [])
    (several : ∀ text, tokens ≠ [.atom text]) (next : UInt32) :
    ((∃ position, Token.ReachesAt tokens 257 position) →
      ∃ position, IsLeast {position | Token.ReachesAt tokens 257 position} position ∧
        (ofTokens tokens).run next = .error (.tooDeep 257 position 256)) ∧
    ((∀ position, ¬Token.ReachesAt tokens 257 position) →
      ((∃ position, Token.IsUnopened tokens position) →
        ∃ position, IsLeast {position | Token.IsUnopened tokens position} position ∧
          (ofTokens tokens).run next = .error (.unbalanced .closing position)) ∧
      ((∀ position, ¬Token.IsUnopened tokens position) →
        ((∃ position, Token.IsUnclosed tokens position) →
          ∃ position, IsGreatest {position | Token.IsUnclosed tokens position} position ∧
            (ofTokens tokens).run next = .error (.unbalanced .opening position)) ∧
        ((∀ position, ¬Token.IsUnclosed tokens position) →
          ∃ tree after, (ofTokens tokens).run next = .ok (tree, after)))) := by
  cases found : Nesting.tooDeepAt? 0 0 tokens with
  | some position =>
      have first := Nesting.isLeast_of_tooDeepAt? found
      exact ⟨fun _ => ⟨position, first, ofTokens_of_tooDeepAt? found next⟩,
        fun shallow => absurd first.1 (shallow position)⟩
  | none =>
      have within := (Nesting.tooDeepAt?_eq_none_iff 0 tokens (Nat.zero_le _)).mp found
      refine ⟨?_, fun _ => ?_⟩
      · rintro ⟨position, reached⟩
        exact absurd (reached.le_nesting.trans within) (by decide)
      rcases Token.isBalanced_or_unmatched tokens with
        balanced | ⟨front, back, rfl, balanced⟩ | ⟨covered, front, back, rfl, balanced⟩
      · have covered := (Token.isBalanced_iff.mp balanced).1
        refine ⟨?_, fun _ => ⟨?_, fun _ => ?_⟩⟩
        · rintro ⟨position, unopened⟩
          exact absurd unopened (covered.not_isUnopened position)
        · rintro ⟨position, unclosed⟩
          exact absurd unclosed (balanced.not_isUnclosed position)
        · exact exists_ofTokens_of_balanced nonempty balanced within next
      · have first := Token.isLeast_isUnopened back balanced
        exact ⟨fun _ => ⟨_, first, ofTokens_of_unopened within balanced next⟩,
          fun opened => absurd first.1 (opened _)⟩
      · have last := Token.isGreatest_isUnclosed front balanced
        refine ⟨?_, fun _ => ⟨fun _ => ⟨_, last, ofTokens_of_unclosed within covered balanced next⟩,
          fun closed => absurd last.1 (closed _)⟩⟩
        rintro ⟨position, unopened⟩
        exact absurd unopened (covered.not_isUnopened position)

/-- In `( a ( ( b )` the parentheses at 0 and 2 stay open, and the later one is reported. -/
theorem ofTokens_outcome_unclosed :
    let tokens : List Token :=
      [.opening, .atom ['a'], .opening, .opening, .atom ['b'], .closing]
    tokens ≠ [] ∧ (∀ text, tokens ≠ [.atom text]) ∧
      (∀ position, ¬Token.ReachesAt tokens 257 position) ∧
      (∀ position, ¬Token.IsUnopened tokens position) ∧ Token.IsUnclosed tokens 2 ∧
      (ofTokens tokens).run 1 = .error (.unbalanced .opening 2) := by
  intro tokens
  have nonempty : tokens ≠ [] := List.cons_ne_nil _ _
  have several : ∀ text, tokens ≠ [.atom text] := by simp [tokens]
  have shallow : ∀ position, ¬Token.ReachesAt tokens 257 position := fun position reached =>
    absurd reached.le_nesting (by decide)
  have covered : Token.IsCovered 0 tokens := by
    have each : ∀ front ∈ tokens.inits, front.count .closing ≤ 0 + front.count .opening := by
      decide
    exact fun front isPrefix => each front ((List.mem_inits _ _).mpr isPrefix)
  have balanced : Token.IsBalanced [.opening, .atom ['b'], .closing] := ⟨by decide, rfl⟩
  have last := Token.isGreatest_isUnclosed [.opening, .atom ['a']] balanced
  have outcome := ((ofTokens_outcome nonempty several 1).2 shallow).2 covered.not_isUnopened
  obtain ⟨position, greatest, refused⟩ := outcome.1 ⟨2, last.1⟩
  obtain rfl := greatest.unique last
  exact ⟨nonempty, several, shallow, covered.not_isUnopened, last.1, refused⟩

end Node

end DataCondition
