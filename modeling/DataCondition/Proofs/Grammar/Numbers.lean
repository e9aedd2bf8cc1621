import DataCondition.Proofs.Grammar.Places
import DataCondition.Proofs.Grammar.Shape
import DataCondition.Proofs.Tree.ConjunctionNumbers

/-!
# The numbers in logic trees

Tests and groups are numbered as their tokens stand, disjuncts after all tokens, and conjunctions
after all disjuncts. No number is left out between the disjuncts or the conjunctions.
-/

namespace DataCondition

namespace Node

open Grammar (Disjunction)
open Token (placed Stays)
open DataCondition.Numbering (Drawn)

/-- Numbers and owners in the tree of a derivation while the counter went from `next` to `after`. -/
structure IsNumbered (disjunction : Disjunction) (next after : UInt32) (tree : Node) : Prop where
  root : tree.kind = .root → tree.id = 0
  places : List.Forall₂ Stays disjunction.places (placed disjunction.tokens)
  sources : sources [tree] = Token.numbered next disjunction.places
  others :
    let disjunct := next + (placed disjunction.tokens).length
    let conjunction := disjunct + (numbersOf .disjunct [tree]).length
    Drawn disjunct conjunction (numbersOf .disjunct [tree]) ∧
      Drawn conjunction after (numbersOf .conjunction [tree]) ∧
      after = conjunction + (numbersOf .conjunction [tree]).length
  top : tree.parent = none
  linked : tree.IsLinked

/-- The number of a test that is a whole condition is the first one. -/
theorem isNumbered_test (text : Text) (next : UInt32) :
    IsNumbered (.test text) next (next + 1) ⟨next, none, .atom text, []⟩ where
  root := nofun
  places := Disjunction.stays_places _
  sources := rfl
  others := by
    change Drawn (next + 1) (next + 1 + (0 : Nat)) [] ∧ Drawn (next + 1 + (0 : Nat)) (next + 1) [] ∧
      next + 1 = next + 1 + (0 : Nat) + (0 : Nat)
    rw [Numbering.add_zero, Numbering.add_zero]
    exact ⟨.nil (next + 1), .nil (next + 1), rfl⟩
  top := rfl
  linked := isLinked_iff.mpr (areOwned_nil next)

/-- Both passes number what stands below the root, one after the other. -/
theorem isNumbered_root {disjunction : Disjunction} {next middle after : UInt32}
    {gathered children : List Node}
    (disjoined : Disjoined 0 (next + (placed disjunction.tokens).length) middle
      (Token.numbered next disjunction.places) gathered)
    (conjoined : Conjoined 0 middle after gathered children) :
    IsNumbered disjunction next after ⟨0, none, .root, children⟩ where
  root _ := rfl
  places := disjunction.stays_places
  sources := by
    have same := conjoined.sources.trans disjoined.sources
    simpa [source?] using same
  others := by
    have disjuncts : Drawn (next + (placed disjunction.tokens).length) middle
        (numbersOf .disjunct [⟨0, none, .root, children⟩]) := by
      simpa [numberOf?, conjoined.disjuncts] using disjoined.numbers
    have conjunctions : Drawn middle after
        (numbersOf .conjunction [⟨0, none, .root, children⟩]) := by
      simpa [numberOf?] using conjoined.numbers
    dsimp only
    rw [← disjuncts.after_eq]
    exact ⟨disjuncts, conjunctions, conjunctions.after_eq⟩
  top := rfl
  linked := isLinked_iff.mpr (conjoined.owned disjoined.owned)

theorem isNumbered_of_tokens {disjunction : Disjunction} {next after : UInt32} {tree : Node}
    (built : logicTree disjunction.tokens next = .ok (tree, after)) :
    tree.IsNumbered disjunction next after := by
  by_cases alone : ∃ text, disjunction = .test text
  · obtain ⟨text, rfl⟩ := alone
    obtain ⟨rfl, rfl⟩ : ⟨next, none, .atom text, []⟩ = tree ∧ next + 1 = after := by
      have run : logicTree (Disjunction.test text).tokens next =
          .ok (⟨next, none, .atom text, []⟩, next + 1) := rfl
      simpa using run.symm.trans built
    exact isNumbered_test text next
  · have several : ∀ text, disjunction.tokens ≠ [.atom text] := fun text lone =>
      alone ⟨text, disjunction.eq_test_of_tokens lone⟩
    have within := (Grammar.exists_tokens_of_logicTree built).1
    have spelled := disjunction.spellingAll_nested
    have nested_run := ofTokens_spellingAll disjunction.allNested_nested
      (by simpa [spelled] using disjunction.tokens_ne_nil) (by simpa [spelled] using several)
      (by simpa [spelled] using within) next
    rw [spelled] at nested_run
    rw [logicTree, Numbering.bind_of_ok nested_run] at built
    obtain ⟨disjoined, middle, disjoined_run, conjoined_run⟩ := Numbering.bind_eq_ok.mp built
    obtain ⟨-, gathered, gathered_run, rfl⟩ := (gatherDisjuncts_eq_ok rfl).mp disjoined_run
    rcases gatherConjunctions_eq_ok.mp conjoined_run with
      ⟨isDisjunct, -⟩ | ⟨isDisjunct, -⟩ | ⟨-, children, children_run, rfl⟩
    · cases isDisjunct
    · cases isDisjunct
    · have nested : allNested (numberedAll 0 next disjunction.nested) := by
        rw [allNested_numberedAll, disjunction.allNested_nested]
      have numbered := disjoined_of_disjuncts _ nested gathered_run
      rw [disjunction.keptSourcesAll_nested, ← disjunction.length_places,
        disjunction.stays_places.length_eq] at numbered
      exact isNumbered_root numbered (conjoined_of_gatherAll _ numbered.isOpen children_run)

/-- Below the root of a canonical tree there are only sources, disjuncts and conjunctions. -/
theorem IsCanonical.kinds_below {tree : Node} (canonical : tree.IsCanonical) :
    ∀ node ∈ tree.children.flatMap nodes,
      node.kind ≠ .root ∧ ∀ link, node.kind ≠ .connective link := by
  intro node below
  obtain ⟨owner, member, child⟩ := exists_owner tree node below
  have inside : node ∈ tree.nodes := by
    rw [nodes_eq]
    exact List.mem_cons_of_mem _ below
  exact ⟨(canonical.shaped owner member).kind_ne_root child,
    (canonical.shaped node inside).kind_ne_connective⟩

/-- The numbers below a root are among those that the counter gave out, each of them once. -/
theorem IsNumbered.exists_drawn {disjunction : Disjunction} {next after : UInt32} {tree : Node}
    (numbered : tree.IsNumbered disjunction next after) :
    ∃ numbers, Drawn next after numbers ∧
      numbers.length = (placed disjunction.tokens).length +
        (numbersOf .disjunct [tree]).length + (numbersOf .conjunction [tree]).length ∧
      ((Node.sources [tree]).map Prod.fst ++ numbersOf .disjunct [tree] ++
        numbersOf .conjunction [tree]).Sublist numbers := by
  obtain ⟨disjuncts, conjunctions, -⟩ := numbered.others
  obtain ⟨tokens, drawn, length, listed⟩ :=
    Token.exists_drawn_numbered next disjunction.places
  rw [numbered.places.length_eq] at drawn length
  refine ⟨_, (drawn.append disjuncts).append conjunctions, ?_, ?_⟩
  · rw [List.length_append, List.length_append, length]
  rw [numbered.sources]
  exact (listed.append (.refl _)).append (.refl _)

/--
Numbers that are drawn from a positive counter and fit in 32 bits differ from each other and from
the root's.
-/
theorem IsNumbered.nodup {disjunction : Disjunction} {next after : UInt32} {tree : Node}
    (numbered : tree.IsNumbered disjunction next after) (canonical : tree.IsCanonical)
    (positive : 0 < next)
    (fits : next.toNat + (placed disjunction.tokens).length + (numbersOf .disjunct [tree]).length +
      (numbersOf .conjunction [tree]).length ≤ UInt32.size) :
    (tree.nodes.map id).Nodup := by
  rcases canonical.top with ⟨isAtom, -⟩ | isRoot
  · have shaped := canonical.shaped tree (by rw [nodes_eq]; exact List.mem_cons_self)
    obtain ⟨text, kind⟩ := kind_of_isAtom isAtom
    rw [IsShaped, kind] at shaped
    rw [nodes_eq, shaped]
    exact List.pairwise_singleton _ tree.id
  · obtain ⟨numbers, drawn, length, listed⟩ := numbered.exists_drawn
    have range := drawn.eq_range' (by rw [length]; omega)
    rw [range] at listed
    have perm := map_id_perm canonical.kinds_below
    simp only [sources_cons, numbersOf_cons, sources_nil, numbersOf_nil, List.append_nil,
      source?, numberOf?, isRoot] at listed
    have below : ((tree.children.flatMap nodes).map id).Nodup :=
      perm.nodup_iff.mpr (listed.nodup List.nodup_range')
    have apart : tree.id ∉ (tree.children.flatMap nodes).map id := by
      rw [numbered.root isRoot, perm.mem_iff]
      intro member
      have bounds := List.mem_range'_1.mp (listed.mem member)
      have above := UInt32.lt_iff_toNat_lt.mp positive
      rw [UInt32.toNat_zero] at above
      omega
    rw [nodes_eq, List.map_cons, List.nodup_cons]
    exact ⟨apart, below⟩

/--
The tree of any tokens that have one is numbered as a derivation of them says. When the counter
starts above zero and its numbers for tokens, disjuncts and conjunctions fit in 32 bits, no number
occurs twice.
-/
theorem isNumbered_of_logicTree {tokens : List Token} {next after : UInt32} {tree : Node}
    (built : (logicTree tokens).run next = .ok (tree, after)) :
    ∃ disjunction : Disjunction, disjunction.tokens = tokens ∧ tree.erased = disjunction.tree ∧
      tree.IsNumbered disjunction next after ∧
      (0 < next → next.toNat + (placed tokens).length + (numbersOf .disjunct [tree]).length +
        (numbersOf .conjunction [tree]).length ≤ UInt32.size → (tree.nodes.map id).Nodup) := by
  obtain ⟨-, disjunction, rfl⟩ := Grammar.exists_tokens_of_logicTree built
  have numbered := isNumbered_of_tokens built
  exact ⟨disjunction, rfl, disjunction.erased_of_logicTree built, numbered,
    numbered.nodup (canonical_of_logicTree built)⟩

/-- In `(a) and ((b or c))` the operands keep the numbers of their own parentheses, 1 and 4. -/
theorem isNumbered_and_groups :
    let tokens : List Token := [.opening, .atom ['a'], .closing, .connective .and, .opening,
      .opening, .atom ['b'], .connective .or, .atom ['c'], .closing, .closing]
    let left : Node := ⟨1, some 13, .group, [⟨10, some 1, .disjunct,
      [⟨2, some 10, .atom ['a'], []⟩]⟩]⟩
    let right : Node := ⟨4, some 13, .group, [⟨11, some 4, .disjunct,
      [⟨6, some 11, .atom ['b'], []⟩]⟩, ⟨12, some 4, .disjunct, [⟨8, some 12, .atom ['c'], []⟩]⟩]⟩
    let tree : Node := ⟨0, none, .root, [⟨9, some 0, .disjunct,
      [⟨13, some 9, .conjunction, [left, right]⟩]⟩]⟩
    (logicTree tokens).run 1 = .ok (tree, 14) ∧ (tree.nodes.map id).Nodup ∧
      ∃ disjunction : Disjunction, disjunction.tokens = tokens ∧
        tree.IsNumbered disjunction 1 14 := by
  intro tokens left right tree
  have built : (logicTree tokens).run 1 = .ok (tree, 14) := rfl
  obtain ⟨disjunction, spelled, -, numbered, distinct⟩ := isNumbered_of_logicTree built
  exact ⟨built, distinct (by decide) (by decide), disjunction, spelled, numbered⟩

end Node

end DataCondition
