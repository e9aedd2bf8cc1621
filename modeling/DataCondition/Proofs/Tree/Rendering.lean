import DataCondition.Tree.Rendering
import DataCondition.Proofs.Text.Cut
import DataCondition.Proofs.Tree.Nodes

/-!
# Rendered trees are told apart

The lines of a rendered tree show the depths of its nodes, and the depths alone tell where each node
hangs. So a tree can be read back from its lines, as long as its labels keep to their lines and no
test has the label of another kind of node.
-/

namespace DataCondition

theorem Numeral.not_mem_ofNat (value : Nat) {char : Char} (other : ¬ char.isDigit) :
    char ∉ ofNat value :=
  fun inside => other (isDigit_of_mem_ofNat inside)

namespace Node

/-! ## Trees from depths -/

/-- A node with its depth, but without what is below it. -/
structure Entry where
  depth : Nat
  id : Nat
  parent : Option Nat
  kind : Kind

/-- The entry of a node at a depth. -/
def entry (depth : Nat) (node : Node) : Entry := ⟨depth, node.id, node.parent, node.kind⟩

/-- The entries of nodes with their depths. -/
def entries (rows : List (Nat × Node)) : List Entry :=
  rows.map fun (depth, node) => node.entry depth

theorem entries_append (left right : List (Nat × Node)) :
    entries (left ++ right) = entries left ++ entries right :=
  List.map_append

/-- Puts a node before the trees that come after it; those that start deeper are its children. -/
def Entry.regrow (entry : Entry) (later : List (Nat × Node)) : List (Nat × Node) :=
  let isBelow (tree : Nat × Node) : Bool := entry.depth < tree.1
  (entry.depth, ⟨entry.id, entry.parent, entry.kind, (later.takeWhile isBelow).map Prod.snd⟩) ::
    later.dropWhile isBelow

/-- The trees that have these entries, before other trees, each with its depth. -/
def regrown (entries : List Entry) (later : List (Nat × Node)) : List (Nat × Node) :=
  entries.foldr Entry.regrow later

theorem regrown_append (left right : List Entry) (later : List (Nat × Node)) :
    regrown (left ++ right) later = regrown left (regrown right later) :=
  List.foldr_append

/-- Children are told from what comes after them, which is not as deep. -/
theorem Entry.regrow_children (entry : Entry) (children : List Node) {later : List (Nat × Node)}
    (shallow : ∀ tree ∈ later.head?, tree.1 ≤ entry.depth) :
    entry.regrow (children.map (entry.depth + 1, ·) ++ later) =
      (entry.depth, ⟨entry.id, entry.parent, entry.kind, children⟩) :: later := by
  have below : ∀ tree ∈ children.map (entry.depth + 1, ·), decide (entry.depth < tree.1) := by simp
  have stops : later.takeWhile (fun tree => entry.depth < tree.1) = [] ∧
      later.dropWhile (fun tree => entry.depth < tree.1) = later := by
    cases later with
    | nil => exact ⟨rfl, rfl⟩
    | cons tree rest =>
        have high : ¬ decide (entry.depth < tree.1) := by simpa using shallow tree rfl
        exact ⟨List.takeWhile_cons_of_neg high, List.dropWhile_cons_of_neg high⟩
  rw [regrow, List.takeWhile_append_of_pos below, List.dropWhile_append_of_pos below, stops.1,
    stops.2, List.append_nil, List.map_map]
  exact congrArg (fun children => (entry.depth, _) :: later) (List.map_id children)

mutual

theorem regrown_preorder : ∀ (node : Node) {depth : Nat} {later : List (Nat × Node)},
    (∀ tree ∈ later.head?, tree.1 ≤ depth) →
    regrown (entries (node.preorder depth)) later = (depth, node) :: later
  | ⟨id, parent, kind, children⟩, depth, later, shallow => by
      have deeper : ∀ tree ∈ later.head?, tree.1 ≤ depth + 1 :=
        fun tree first => Nat.le_succ_of_le (shallow tree first)
      have inside := regrown_preorderAll children deeper
      have grown := Entry.regrow_children ⟨depth, id, parent, kind⟩ children shallow
      rw [preorder, ← grown, ← inside]
      rfl
termination_by structural node => node

theorem regrown_preorderAll : ∀ (row : List Node) {depth : Nat} {later : List (Nat × Node)},
    (∀ tree ∈ later.head?, tree.1 ≤ depth) →
    regrown (entries (preorderAll depth row)) later = row.map (depth, ·) ++ later
  | [], _, _, _ => by simp [preorderAll, entries, regrown]
  | node :: rest, depth, later, shallow => by
      have after := regrown_preorderAll rest shallow
      have level : ∀ tree ∈ (rest.map (depth, ·) ++ later).head?, tree.1 ≤ depth := by
        cases rest with
        | nil => exact shallow
        | cons next others => simp
      rw [preorderAll, entries_append, regrown_append, after]
      exact regrown_preorder node level
termination_by structural row => row

end

/-- A tree is determined by the entries of its nodes. -/
theorem eq_of_entries_preorder {left right : Node}
    (same : entries (left.preorder 0) = entries (right.preorder 0)) : left = right := by
  have first := @regrown_preorder left 0 [] (by simp)
  rw [same, @regrown_preorder right 0 [] (by simp)] at first
  simpa using first.symm

/-! ## Entries from lines -/

/-- The number of the owner as a line shows it. -/
def ownerText : Option Nat → Text
  | none => ['-']
  | some parent => Numeral.ofNat parent

theorem ownerText_inj {parent parent' : Option Nat} (same : ownerText parent = ownerText parent') :
    parent = parent' := by
  have unlike (number : Nat) : ['-'] ≠ Numeral.ofNat number :=
    fun same => Numeral.not_mem_ofNat number (by decide) (same ▸ List.mem_singleton_self '-')
  cases parent with
  | none =>
      cases parent' with
      | none => rfl
      | some number => exact absurd same (unlike number)
  | some number =>
      cases parent' with
      | none => exact absurd same.symm (unlike number)
      | some number' => exact congrArg some (Numeral.ofNat_inj same)

theorem not_mem_ownerText (parent : Option Nat) : '"' ∉ ownerText parent := by
  cases parent with
  | none => decide
  | some number => exact Numeral.not_mem_ofNat number (by decide)

theorem line_append (depth : Nat) (node : Node) (rest : Text) :
    node.line depth ++ rest =
      List.replicate (depth + 1) '-' ++ '>' :: ("(ID=\"".toList ++ (Numeral.ofNat node.id ++
        '"' :: (", parentId=\"".toList ++ (ownerText node.parent ++
          '"' :: (", value:\"".toList ++ (node.label ++ "\")".toList ++ '\n' :: rest)))))) := by
  obtain ⟨id, parent, kind, children⟩ := node
  cases parent with
  | none => simp [line, ownerText]
  | some number => simp [line, ownerText]

/-- The line of a node tells its depth, its numbers and its label if the label keeps to the line. -/
theorem line_append_inj {depth depth' : Nat} {node node' : Node} {rest rest' : Text}
    (inLine : '\n' ∉ node.label) (inLine' : '\n' ∉ node'.label)
    (same : node.line depth ++ rest = node'.line depth' ++ rest') :
    (depth = depth' ∧ node.id = node'.id ∧ node.parent = node'.parent ∧
      node.label = node'.label) ∧ rest = rest' := by
  rw [line_append, line_append] at same
  obtain ⟨dashes, same⟩ := Text.append_cons_inj (by simp) (by simp) same
  obtain ⟨number, same⟩ := Text.append_cons_inj (Numeral.not_mem_ofNat _ (by decide))
    (Numeral.not_mem_ofNat _ (by decide)) (List.append_cancel_left same)
  obtain ⟨owner, same⟩ := Text.append_cons_inj (not_mem_ownerText _) (not_mem_ownerText _)
    (List.append_cancel_left same)
  obtain ⟨label, same⟩ := Text.append_cons_inj (by simp [inLine]) (by simp [inLine'])
    (List.append_cancel_left same)
  have depths : depth + 1 = depth' + 1 := by simpa using congrArg List.length dashes
  exact ⟨⟨Nat.succ.inj depths, Numeral.ofNat_inj number, ownerText_inj owner,
    List.append_cancel_right label⟩, same⟩

/-- The labels of gathered nodes that are no tests. -/
def Kind.fixedLabels : List Text := [root.label, group.label, disjunct.label, conjunction.label]

/-- Whether a label shows its kind: that of a test keeps to the line and is no other kind's, and no
connective is left. -/
def Kind.IsLegible : Kind → Prop
  | .atom text => '\n' ∉ text ∧ text ∉ fixedLabels
  | .connective _ => False
  | _ => True

/-- The kind that a label shows. -/
def Kind.ofLabel (label : Text) : Kind :=
  if label = root.label then .root
  else if label = group.label then .group
  else if label = disjunct.label then .disjunct
  else if label = conjunction.label then .conjunction
  else .atom label

theorem Kind.IsLegible.ofLabel_label {kind : Kind} (legible : kind.IsLegible) :
    ofLabel kind.label = kind := by
  cases kind with
  | atom text =>
      obtain ⟨-, other⟩ := legible
      simp only [fixedLabels, List.mem_cons, List.not_mem_nil, or_false, not_or] at other
      obtain ⟨notRoot, notGroup, notDisjunct, notConjunction⟩ := other
      change ofLabel text = .atom text
      rw [ofLabel, if_neg notRoot, if_neg notGroup, if_neg notDisjunct, if_neg notConjunction]
  | connective link => exact legible.elim
  | _ => rfl

theorem Kind.IsLegible.not_mem_label {kind : Kind} (legible : kind.IsLegible) :
    '\n' ∉ kind.label := by
  cases kind with
  | atom text => exact legible.1
  | connective link => exact legible.elim
  | _ => decide

/-- Lines with legible labels tell the entries of their nodes. -/
theorem entries_eq_of_lines {rows rows' : List (Nat × Node)}
    (legible : ∀ row ∈ rows, row.2.kind.IsLegible)
    (legible' : ∀ row ∈ rows', row.2.kind.IsLegible)
    (same : (rows.flatMap fun (depth, node) => node.line depth) =
      rows'.flatMap fun (depth, node) => node.line depth) : entries rows = entries rows' := by
  induction rows generalizing rows' with
  | nil =>
      cases rows' with
      | nil => rfl
      | cons row' rest' => simp [line] at same
  | cons row rest induction =>
      cases rows' with
      | nil => simp [line] at same
      | cons row' rest' =>
          obtain ⟨depth, node⟩ := row
          obtain ⟨depth', node'⟩ := row'
          rw [List.forall_mem_cons] at legible legible'
          obtain ⟨⟨rfl, id, parent, label⟩, later⟩ :=
            line_append_inj legible.1.not_mem_label legible'.1.not_mem_label same
          have kind : node.kind = node'.kind := by
            rw [← legible.1.ofLabel_label, ← legible'.1.ofLabel_label]
            exact congrArg Kind.ofLabel label
          have first : node.entry depth = node'.entry depth := by
            rw [entry, entry, id, parent, kind]
          change node.entry depth :: entries rest = node'.entry depth :: entries rest'
          rw [first, induction legible.2 legible'.2 later]

/-- Trees with legible labels are equal if they are rendered alike. -/
theorem eq_of_render_eq {left right : Node} (legible : ∀ node ∈ left.nodes, node.kind.IsLegible)
    (legible' : ∀ node ∈ right.nodes, node.kind.IsLegible) (same : left.render = right.render) :
    left = right :=
  eq_of_entries_preorder (entries_eq_of_lines
    (fun _ member => legible _ (List.mem_map_of_mem member))
    (fun _ member => legible' _ (List.mem_map_of_mem member)) same)

end Node

end DataCondition
