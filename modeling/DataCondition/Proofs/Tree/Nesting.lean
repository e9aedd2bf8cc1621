import DataCondition.Proofs.Token.Depth
import DataCondition.Proofs.Tree.Counter
import DataCondition.Proofs.Tree.Erasure

/-!
# Building the tree of parentheses

The tree of parentheses spells its tokens: writing its nodes out from left to right gives them back.
Every row of tests, connectives and groups is the tree of the tokens that it spells.
-/

namespace DataCondition

namespace Node

mutual

/-- The tokens that a node of a tree of parentheses spells. -/
def spelling : Node → List Token
  | ⟨_, _, kind, children⟩ =>
    match kind with
    | .atom text => [.atom text]
    | .connective link => [.connective link]
    | .group => .opening :: spellingAll children ++ [.closing]
    | .root | .disjunct | .conjunction => spellingAll children

/-- The tokens that a row of nodes spells. -/
def spellingAll : List Node → List Token
  | [] => []
  | node :: rest => node.spelling ++ spellingAll rest

end

mutual

/-- Whether a tree is made of groups over tests and connectives that have nothing below them. -/
def isNested : Node → Bool
  | ⟨_, _, kind, children⟩ =>
    match kind with
    | .atom _ | .connective _ => children.isEmpty
    | .group => allNested children
    | .root | .disjunct | .conjunction => false

/-- Whether all trees of a row are so. -/
def allNested : List Node → Bool
  | [] => true
  | node :: rest => node.isNested && allNested rest

end

mutual

/-- The node with numbers in order from `next` on, and with itself under `owner`. -/
def numbered (owner : Nat) (next : UInt32) : Node → Node
  | ⟨_, _, kind, children⟩ => ⟨next, some owner, kind, numberedAll next (next + 1) children⟩

/-- A row of nodes with numbers in order from `next` on, all under `owner`. -/
def numberedAll (owner : Nat) (next : UInt32) : List Node → List Node
  | [] => []
  | node :: rest => node.numbered owner next :: numberedAll owner (next + 1 + node.size) rest

end

@[simp]
theorem spellingAll_append (left right : List Node) :
    spellingAll (left ++ right) = spellingAll left ++ spellingAll right := by
  induction left with
  | nil => simp [spellingAll]
  | cons node rest induction => simp [spellingAll, induction]

@[simp]
theorem allNested_append (left right : List Node) :
    allNested (left ++ right) = (allNested left && allNested right) := by
  induction left with
  | nil => simp [allNested]
  | cons node rest induction => simp [allNested, induction, Bool.and_assoc]

theorem allNested_reverse (row : List Node) : allNested row.reverse = allNested row := by
  induction row with
  | nil => rfl
  | cons node rest induction => simp [allNested, induction, Bool.and_comm]

theorem kind_numbered (owner : Nat) (next : UInt32) (node : Node) :
    (node.numbered owner next).kind = node.kind := by
  obtain ⟨_, _, _, _⟩ := node
  rfl

theorem isConnective_numbered (link : Connective) (owner : Nat) (next : UInt32) (node : Node) :
    (node.numbered owner next).isConnective link = node.isConnective link := by
  rw [isConnective, kind_numbered, isConnective]

theorem numberedAll_append (owner : Nat) (next : UInt32) (left right : List Node) :
    numberedAll owner next (left ++ right) =
      numberedAll owner next left ++ numberedAll owner (next + sizeAll left) right := by
  induction left generalizing next with
  | nil => simp [numberedAll, sizeAll]
  | cons node rest induction => simp [numberedAll, sizeAll, induction, UInt32.add_assoc]

mutual

theorem spelling_erased : ∀ node : Node, node.erased.spelling = node.spelling
  | ⟨_, _, kind, children⟩ => by
      cases kind <;> simp [erased, bare, spelling, spellingAll_erasedAll children]

theorem spellingAll_erasedAll : ∀ row : List Node, spellingAll (erasedAll row) = spellingAll row
  | [] => by simp [spellingAll]
  | node :: rest => by
      simp [spellingAll, spelling_erased node, spellingAll_erasedAll rest]

end

mutual

theorem erased_numbered (owner : Nat) (next : UInt32) : ∀ node : Node,
    (node.numbered owner next).erased = node.erased
  | ⟨_, _, kind, children⟩ => by
      simp [numbered, erased, erasedAll_numberedAll]

theorem erasedAll_numberedAll (owner : Nat) (next : UInt32) : ∀ row : List Node,
    erasedAll (numberedAll owner next row) = erasedAll row
  | [] => by simp [numberedAll]
  | node :: rest => by
      simp [numberedAll, erased_numbered owner next node, erasedAll_numberedAll]

end

mutual

theorem isNested_numbered (owner : Nat) (next : UInt32) : ∀ node : Node,
    (node.numbered owner next).isNested = node.isNested
  | ⟨_, _, kind, children⟩ => by
      cases kind with
      | atom _ | connective _ => cases children <;> rfl
      | group => simpa [numbered, isNested] using allNested_numberedAll next (next + 1) children
      | root | disjunct | conjunction => rfl

theorem allNested_numberedAll (owner : Nat) (next : UInt32) : ∀ row : List Node,
    allNested (numberedAll owner next row) = allNested row
  | [] => by simp [numberedAll]
  | node :: rest => by
      simp [numberedAll, allNested, isNested_numbered owner next node, allNested_numberedAll]

end

end Node

namespace Nesting

open Node

mutual

/-- Collecting the tokens of a nested tree adds the tree, with the next numbers, to the row. -/
theorem collect_spelling {position : Nat} {next : UInt32} {opened : List Opened} {nodes : List Node}
    {later : List Token} : ∀ node : Node, node.isNested →
      collect position opened nodes (node.spelling ++ later) next =
        collect (position + node.spelling.length) opened
          (node.numbered (owner opened) next :: nodes) later (next + 1 + node.size)
  | ⟨_, _, kind, children⟩, nested => by
      cases kind with
      | atom text =>
          obtain rfl : children = [] := by simpa [isNested] using nested
          simp [spelling, collect, numbered, numberedAll, Node.size, sizeAll]
      | connective link =>
          obtain rfl : children = [] := by simpa [isNested] using nested
          simp [spelling, collect, numbered, numberedAll, Node.size, sizeAll]
      | group =>
          have inside : allNested children := by simpa [isNested] using nested
          simp only [spelling, List.cons_append, List.append_assoc, collect,
            Numbering.fresh_bind]
          rw [collect_spellingAll children inside]
          simp [collect, owner, numbered, Node.size, Nat.add_assoc, Nat.add_comm, Nat.add_left_comm]
      | root | disjunct | conjunction => simp [isNested] at nested

theorem collect_spellingAll {position : Nat} {next : UInt32} {opened : List Opened}
    {nodes : List Node} {later : List Token} : ∀ row : List Node, allNested row →
      collect position opened nodes (spellingAll row ++ later) next =
        collect (position + (spellingAll row).length) opened
          ((numberedAll (owner opened) next row).reverse ++ nodes) later (next + sizeAll row)
  | [], _ => by simp [spellingAll, numberedAll, sizeAll]
  | node :: rest, nested => by
      obtain ⟨first, others⟩ : node.isNested ∧ allNested rest := by
        simpa [allNested] using nested
      rw [spellingAll, List.append_assoc, collect_spelling node first,
        collect_spellingAll rest others]
      simp [numberedAll, sizeAll, Nat.add_assoc, UInt32.add_assoc]

end

/-- The tokens before the innermost open group, with its parenthesis. -/
def openedSpelling : List Opened → List Token
  | [] => []
  | group :: outer => openedSpelling outer ++ Node.spellingAll group.before.reverse ++ [.opening]

theorem spelling_closed {group : Opened} {outer : List Opened} {nodes : List Node} :
    let closed : Node := ⟨group.id, some (owner outer), .group, nodes.reverse⟩
    Node.spellingAll (closed :: group.before).reverse =
      Node.spellingAll group.before.reverse ++ .opening :: Node.spellingAll nodes.reverse ++
        [.closing] := by
  simp [Node.spellingAll, Node.spelling]

/-- Collected nodes form nested trees that spell all tokens read so far and all that follow. -/
theorem spellingAll_of_collect {position : Nat} {next after : UInt32} {opened : List Opened}
    {nodes row : List Node} {tokens : List Token}
    (collected : collect position opened nodes tokens next = .ok (row, after))
    (gathered : Node.allNested nodes) (enclosing : ∀ group ∈ opened, Node.allNested group.before) :
    Node.allNested row ∧
      Node.spellingAll row = openedSpelling opened ++ Node.spellingAll nodes.reverse ++ tokens := by
  induction tokens generalizing position opened nodes next with
  | nil =>
      cases opened with
      | nil =>
          obtain ⟨rfl, rfl⟩ : nodes.reverse = row ∧ next = after := by
            simpa [collect] using collected
          exact ⟨by rwa [Node.allNested_reverse], by simp [openedSpelling]⟩
      | cons group outer => simp [collect] at collected
  | cons token rest induction =>
      cases token with
      | opening =>
          simp only [collect, Numbering.fresh_bind] at collected
          obtain ⟨nested, spelled⟩ := induction collected rfl (by simpa [gathered] using enclosing)
          refine ⟨nested, ?_⟩
          simpa [openedSpelling, Node.spellingAll] using spelled
      | closing =>
          cases opened with
          | nil => simp [collect] at collected
          | cons group outer =>
              obtain ⟨before, around⟩ := List.forall_mem_cons.mp enclosing
              rw [collect] at collected
              obtain ⟨nested, spelled⟩ := induction collected
                (by simp [Node.allNested, Node.isNested, Node.allNested_reverse, gathered, before])
                around
              refine ⟨nested, ?_⟩
              rw [spelled, spelling_closed]
              simp [openedSpelling]
      | atom text =>
          simp only [collect, Numbering.fresh_bind] at collected
          obtain ⟨nested, spelled⟩ := induction collected
            (by simp [Node.allNested, Node.isNested, gathered]) enclosing
          refine ⟨nested, ?_⟩
          simpa [Node.spellingAll, Node.spelling] using spelled
      | connective link =>
          simp only [collect, Numbering.fresh_bind] at collected
          obtain ⟨nested, spelled⟩ := induction collected
            (by simp [Node.allNested, Node.isNested, gathered]) enclosing
          refine ⟨nested, ?_⟩
          simpa [Node.spellingAll, Node.spelling] using spelled

end Nesting

namespace Node

theorem ofTokens_several {tokens : List Token} (nonempty : tokens ≠ [])
    (several : ∀ text, tokens ≠ [.atom text])
    (within : Token.nesting tokens ≤ Nesting.limit) :
    ofTokens tokens = do
      let children ← Nesting.collect 0 [] [] tokens
      return ⟨Nesting.rootId, none, .root, children⟩ := by
  have shallow := (Nesting.tooDeepAt?_eq_none_iff 0 tokens (Nat.zero_le _)).mpr within
  unfold ofTokens
  split
  next => exact (nonempty rfl).elim
  next text => exact (several text rfl).elim
  next => rw [shallow]

theorem ofTokens_of_tooDeepAt? {tokens : List Token} {position : Nat}
    (found : Nesting.tooDeepAt? 0 0 tokens = some position) (next : UInt32) :
    ofTokens tokens next = .error (.tooDeep (Nesting.limit + 1) position Nesting.limit) := by
  unfold ofTokens
  split
  next => simp [Nesting.tooDeepAt?] at found
  next => simp [Nesting.tooDeepAt?] at found
  next =>
    rw [found]
    rfl

theorem nesting_le_of_ofTokens {tokens : List Token} {next : UInt32} {result : Node × UInt32}
    (built : ofTokens tokens next = .ok result) : Token.nesting tokens ≤ Nesting.limit := by
  refine Decidable.byContradiction fun deep => ?_
  have refused := mt (Nesting.tooDeepAt?_eq_none_iff 0 tokens (Nat.zero_le _)).mp deep
  obtain ⟨position, found⟩ := Option.ne_none_iff_exists'.mp refused
  cases (ofTokens_of_tooDeepAt? found next).symm.trans built

/-- A tree of tokens is a lone test, or it stands under a root and spells its tokens. -/
theorem ofTokens_eq_ok {tokens : List Token} {next after : UInt32} {tree : Node}
    (built : ofTokens tokens next = .ok (tree, after)) :
    (∃ text, tokens = [.atom text] ∧ tree = ⟨next, none, .atom text, []⟩) ∨
      ∃ row, allNested row ∧ spellingAll row = tokens ∧
        tree = ⟨Nesting.rootId, none, .root, row⟩ := by
  by_cases nonempty : tokens = []
  · subst nonempty
    simp [ofTokens] at built
  by_cases several : ∃ text, tokens = [.atom text]
  · obtain ⟨text, rfl⟩ := several
    obtain ⟨rfl, -⟩ : ⟨next, none, .atom text, []⟩ = tree ∧ next + 1 = after := by
      simpa [ofTokens] using built
    exact .inl ⟨text, rfl, rfl⟩
  · have within := nesting_le_of_ofTokens built
    rw [ofTokens_several nonempty (by simpa using several) within] at built
    obtain ⟨row, middle, collected, rooted⟩ := Numbering.bind_eq_ok.mp built
    obtain ⟨rfl, -⟩ : ⟨Nesting.rootId, none, .root, row⟩ = tree ∧ middle = after := by
      simpa using rooted
    obtain ⟨nested, spelled⟩ := Nesting.spellingAll_of_collect collected rfl (by simp)
    exact .inr ⟨row, nested, by simpa [Nesting.openedSpelling, spellingAll] using spelled, rfl⟩

/-- A nested row that is more than a test and not too deep is the tree of the tokens it spells. -/
theorem ofTokens_spellingAll {row : List Node} (nested : allNested row)
    (nonempty : spellingAll row ≠ []) (several : ∀ text, spellingAll row ≠ [.atom text])
    (within : Token.nesting (spellingAll row) ≤ Nesting.limit) (next : UInt32) :
    ofTokens (spellingAll row) next =
      .ok (⟨Nesting.rootId, none, .root, numberedAll Nesting.rootId next row⟩,
        next + sizeAll row) := by
  have collected : Nesting.collect 0 [] [] (spellingAll row ++ []) next = _ :=
    Nesting.collect_spellingAll row nested
  simp only [List.append_nil, Nesting.collect, Numbering.pure_apply, List.reverse_reverse,
    Nesting.owner] at collected
  rw [ofTokens_several nonempty several within, Numbering.bind_of_ok collected]
  rfl

end Node

end DataCondition
