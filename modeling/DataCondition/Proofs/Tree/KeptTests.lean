import DataCondition.Proofs.Tree.Alternation
import DataCondition.Proofs.Tree.Atoms
import DataCondition.Proofs.Tree.Disjunction
import DataCondition.Proofs.Tree.Nodes

/-!
# Gathering keeps all tests

Gathering drops connectives and parentheses, and it moves all other nodes. If nothing is below a
connective, no test gets lost and none changes its place, whatever the tree was before.
-/

namespace DataCondition

namespace Node

variable {next after : UInt32} {node : Node} {row rest : List Node}

/-- Whether nothing is below any connective of the tree. -/
def HasLeafConnectives (tree : Node) : Prop :=
  ∀ node ∈ tree.nodes, ∀ link, node.kind = .connective link → node.isLeaf

theorem HasLeafConnectives.below (leaves : node.HasLeafConnectives) :
    ∀ child ∈ node.children, child.HasLeafConnectives := by
  rw [HasLeafConnectives, nodes_eq, List.forall_mem_cons, List.forall_mem_flatMap] at leaves
  exact leaves.2

theorem HasLeafConnectives.texts_eq_nil (leaves : node.HasLeafConnectives) {link : Connective}
    (isLink : node.isConnective link) : node.texts = [] := by
  have kind : node.kind = .connective link := by simpa [isConnective] using isLink
  rw [HasLeafConnectives, nodes_eq, List.forall_mem_cons] at leaves
  have leaf : node.children = [] := List.isEmpty_iff.mp (leaves.1 link kind)
  rw [texts_eq, leaf, atom?, kind]
  rfl

/-! ## Disjuncts -/

mutual

/-- The disjuncts of a row have the tests of its nodes, in order. -/
theorem texts_of_disjuncts : ∀ (row : List Node) {owner : Nat} {next after : UInt32}
    {gathered : List Node},
    (∀ node ∈ row, node.HasLeafConnectives) → disjuncts owner row next = .ok (gathered, after) →
    textsAll gathered = textsAll row
  | [], _, _, _, _, _, run => by simp [disjuncts] at run
  | ⟨id, parent, kind, children⟩ :: rest, owner, next, after, gathered, leaves, run => by
      obtain ⟨here, later_leaves⟩ := List.forall_mem_cons.mp leaves
      rcases disjuncts_cons_eq_ok.mp run with
        ⟨rfl, ends, -, spliced, later, middle, inner_run, later_run, rfl⟩ |
        ⟨-, -, first, others, later, middle, member_run, members_run, rfl⟩
      · have inside := texts_of_disjuncts children here.below inner_run
        have behind := texts_of_later rest ends later_leaves later_run
        rw [textsAll_append, inside, behind, textsAll, texts]
        simp
      · have front := texts_of_member ⟨id, parent, kind, children⟩ here member_run
        have behind := texts_of_members rest later_leaves members_run
        rw [textsAll, texts_eq, textsAll, textsAll, front, ← behind]
        simp [atom?]
termination_by structural row => row

theorem texts_of_later : ∀ (rest : List Node) {owner : Nat} {next after : UInt32}
    {gathered : List Node}, endsRun rest → (∀ node ∈ rest, node.HasLeafConnectives) →
    laterDisjuncts owner rest next = .ok (gathered, after) → textsAll gathered = textsAll rest
  | [], _, _, _, _, _, _, run => by
      obtain ⟨rfl, -⟩ := by simpa using run
      rfl
  | separator :: rest, _, _, _, _, ends, leaves, run => by
      obtain ⟨here, later_leaves⟩ := List.forall_mem_cons.mp leaves
      rw [laterDisjuncts_cons] at run
      rw [texts_of_disjuncts rest later_leaves run, textsAll, here.texts_eq_nil ends,
        List.nil_append]
termination_by structural rest => rest

theorem texts_of_members : ∀ (rest : List Node) {disjunct owner : Nat} {next after : UInt32}
    {others later : List Node}, (∀ node ∈ rest, node.HasLeafConnectives) →
    members disjunct owner rest next = .ok ((others, later), after) →
    textsAll others ++ textsAll later = textsAll rest
  | [], _, _, _, _, _, _, _, run => by
      obtain ⟨rfl, rfl, -⟩ := members_nil_eq_ok.mp run
      rfl
  | node :: rest, disjunct, owner, next, after, others, later, leaves, run => by
      obtain ⟨here, later_leaves⟩ := List.forall_mem_cons.mp leaves
      cases ends : node.isConnective .or with
      | true =>
          obtain ⟨rfl, later_run⟩ := (members_separator_eq_ok ends).mp run
          rw [texts_of_disjuncts rest later_leaves later_run, textsAll, textsAll,
            here.texts_eq_nil ends]
      | false =>
          obtain ⟨moved, members, middle, moved_run, members_run, rfl⟩ :=
            (members_cons_eq_ok ends).mp run
          rw [textsAll, textsAll, texts_of_member node here moved_run,
            ← texts_of_members rest later_leaves members_run, List.append_assoc]
termination_by structural rest => rest

theorem texts_of_member : ∀ (node : Node) {disjunct : Nat} {next after : UInt32} {moved : Node},
    node.HasLeafConnectives → member disjunct node next = .ok (moved, after) →
    moved.texts = node.texts
  | ⟨id, parent, kind, children⟩, _, _, _, _, leaves, run => by
      rcases member_eq_ok.mp run with ⟨isGroup, -, gathered, inner_run, rfl⟩ | ⟨-, rfl, -⟩
      · cases isGroup
        rw [texts, texts_of_disjuncts children leaves.below inner_run, texts]
        all_goals simp
      · exact texts_under _ _
termination_by structural node => node

end

/-- Gathering the disjuncts of a tree keeps its tests, in order. -/
theorem texts_of_gatherDisjuncts {gathered : Node} (leaves : node.HasLeafConnectives)
    (run : gatherDisjuncts node next = .ok (gathered, after)) : gathered.texts = node.texts := by
  by_cases test : node.isAtom
  · rw [gatherDisjuncts, if_pos test] at run
    obtain ⟨rfl, -⟩ : node = gathered ∧ next = after := by simpa using run
    rfl
  · obtain ⟨-, children, inside, rfl⟩ := (gatherDisjuncts_eq_ok (by simpa using test)).mp run
    rw [texts_eq, texts_eq node, texts_of_disjuncts node.children leaves.below inside]
    rfl

/-! ## Conjunctions -/

theorem textsAll_operands (leaves : ∀ node ∈ row, node.HasLeafConnectives) :
    textsAll (operands row) = textsAll row := by
  induction row with
  | nil => rfl
  | cons node rest induction =>
      obtain ⟨here, later_leaves⟩ := List.forall_mem_cons.mp leaves
      by_cases isAnd : node.isConnective .and
      · rw [operands_separator isAnd, induction later_leaves, textsAll, here.texts_eq_nil isAnd,
          List.nil_append]
      · rw [operands_cons (by simpa using isAnd), textsAll, textsAll, induction later_leaves]

theorem texts_of_gatherAll {results : List Node}
    (each : ∀ node ∈ row, ∀ {start stop : UInt32} {result : Node},
      gatherConjunctions node start = .ok (result, stop) → result.texts = node.texts)
    (run : gatherAll row next = .ok (results, after)) : textsAll results = textsAll row := by
  induction row generalizing next results with
  | nil =>
      obtain ⟨rfl, -⟩ : [] = results ∧ next = after := by simpa using run
      rfl
  | cons node rest induction =>
      obtain ⟨first, others, middle, first_run, others_run, rfl⟩ := gatherAll_cons_eq_ok.mp run
      rw [List.forall_mem_cons] at each
      rw [textsAll, textsAll, each.1 first_run, induction each.2 others_run]

/-- Gathering the conjunctions of a tree keeps its tests, in order. -/
theorem texts_of_gatherConjunctions {gathered : Node} (leaves : node.HasLeafConnectives)
    (run : gatherConjunctions node next = .ok (gathered, after)) :
    gathered.texts = node.texts := by
  induction node using Node.induction generalizing next after gathered with
  | step id parent kind children induction =>
      have each {part : Node} (member : part ∈ children) {start stop : UInt32} {result : Node} :
          gatherConjunctions part start = .ok (result, stop) → result.texts = part.texts :=
        induction part member (leaves.below part member)
      have operands_kept {start stop : UInt32} {results : List Node}
          (inside : gatherOperands children start = .ok (results, stop)) :
          textsAll results = textsAll children := by
        rw [gatherOperands_eq] at inside
        have kept := texts_of_gatherAll (fun _ member => each (mem_of_mem_operands member)) inside
        exact kept.trans (textsAll_operands leaves.below)
      rw [texts_eq, texts_eq ⟨id, parent, kind, children⟩]
      rcases gatherConjunctions_eq_ok.mp run with
        ⟨-, -, -, results, inside, rfl⟩ | ⟨-, -, -, results, inside, rfl⟩ |
          ⟨-, results, inside, rfl⟩
      · have joined : textsAll [⟨next, some id, .conjunction, results.map (under next)⟩] =
            textsAll children := by
          simp [textsAll, texts, textsAll_map_under, operands_kept inside]
        exact congrArg _ joined
      · exact congrArg _ (operands_kept inside)
      · exact congrArg _ (texts_of_gatherAll (fun _ => each) inside)

/-! ## The outcome -/

/-- Either way of gathering keeps the tests of any tree in which nothing is below a connective. -/
theorem atoms_of_gathering (leaves : node.HasLeafConnectives) (next : UInt32) :
    (∀ gathered after, (gatherDisjuncts node).run next = .ok (gathered, after) →
      gathered.atoms = node.atoms) ∧
    ∀ gathered after, (gatherConjunctions node).run next = .ok (gathered, after) →
      gathered.atoms = node.atoms := by
  simp only [atoms_eq_texts]
  exact ⟨fun gathered after run => texts_of_gatherDisjuncts leaves run,
    fun gathered after run => texts_of_gatherConjunctions leaves run⟩

/--
In this tree a test stands over a disjunct, and a lone group holds a conjunction. The first way of
gathering splices the group and leaves the disjunct alone, the second one does the opposite.
-/
theorem atoms_of_gathering_mixed :
    let below : Node := ⟨3, none, .disjunct, [⟨4, none, .atom ['b'], []⟩,
      ⟨5, none, .connective .and, []⟩, ⟨6, none, .atom ['c'], []⟩]⟩
    let group : Node := ⟨8, none, .group, [⟨9, none, .atom ['d'], []⟩,
      ⟨10, none, .connective .or, []⟩, ⟨11, none, .conjunction, [⟨12, none, .atom ['e'], []⟩]⟩]⟩
    let tree : Node := ⟨1, none, .conjunction, [⟨2, none, .atom ['a'], [below]⟩,
      ⟨7, none, .connective .or, []⟩, group]⟩
    tree.HasLeafConnectives ∧ tree.atoms = [['a'], ['b'], ['c'], ['d'], ['e']] ∧
      (∃ gathered after, (gatherDisjuncts tree).run 13 = .ok (gathered, after) ∧
        gathered.atoms = tree.atoms) ∧
      ∃ gathered after, (gatherConjunctions tree).run 13 = .ok (gathered, after) ∧
        gathered.atoms = tree.atoms := by
  intro below group tree
  have leaves : tree.HasLeafConnectives := by
    simp [HasLeafConnectives, nodes_eq, isLeaf, tree, below, group]
  obtain ⟨disjoined, conjoined⟩ := atoms_of_gathering leaves 13
  exact ⟨leaves, rfl, ⟨_, _, rfl, disjoined _ _ rfl⟩, ⟨_, _, rfl, conjoined _ _ rfl⟩⟩

end Node

end DataCondition
