import DataCondition.Tree.Basic

/-!
# Trees without numbers

What a tree says about a condition does not hang on the numbers of its nodes. Erasing the numbers
and owners leaves the kinds, the texts and the order.
-/

namespace DataCondition

namespace Node

/-- A node without number and owner. -/
def bare (kind : Node.Kind) (children : List Node) : Node := ⟨0, none, kind, children⟩

mutual

/-- The node without its number and owner, and so all nodes below it. -/
def erased : Node → Node
  | ⟨_, _, kind, children⟩ => bare kind (erasedAll children)

/-- A row of nodes without their numbers and owners. -/
def erasedAll : List Node → List Node
  | [] => []
  | node :: rest => node.erased :: erasedAll rest

end

@[simp]
theorem erasedAll_nil : erasedAll [] = [] := by
  rw [erasedAll]

@[simp]
theorem erasedAll_cons (node : Node) (rest : List Node) :
    erasedAll (node :: rest) = node.erased :: erasedAll rest := by
  rw [erasedAll]

theorem erasedAll_eq_map (row : List Node) : erasedAll row = row.map erased := by
  induction row with
  | nil => simp
  | cons node rest induction => simp [induction]

@[simp]
theorem erasedAll_append (left right : List Node) :
    erasedAll (left ++ right) = erasedAll left ++ erasedAll right := by
  simp [erasedAll_eq_map]

/-- A row that erases to two rows is made of two rows. -/
theorem erasedAll_eq_append {row left right : List Node} (split : erasedAll row = left ++ right) :
    ∃ front back, row = front ++ back ∧ erasedAll front = left ∧ erasedAll back = right := by
  simp only [erasedAll_eq_map] at split ⊢
  exact List.map_eq_append_iff.mp split

theorem erasedAll_eq_cons {row rest : List Node} {first : Node}
    (split : erasedAll row = first :: rest) :
    ∃ node others, row = node :: others ∧ node.erased = first ∧ erasedAll others = rest := by
  simp only [erasedAll_eq_map] at split ⊢
  exact List.map_eq_cons_iff.mp split

theorem erasedAll_eq_nil {row : List Node} : erasedAll row = [] ↔ row = [] := by
  simp [erasedAll_eq_map]

theorem erased_eq_bare {node : Node} {kind : Node.Kind} {children : List Node} :
    node.erased = bare kind children ↔ node.kind = kind ∧ erasedAll node.children = children := by
  obtain ⟨id, parent, kind', children'⟩ := node
  simp [erased, bare]

@[simp]
theorem kind_erased (node : Node) : node.erased.kind = node.kind := by
  obtain ⟨id, parent, kind, children⟩ := node
  rfl

@[simp]
theorem isConnective_erased (link : Connective) (node : Node) :
    node.erased.isConnective link = node.isConnective link := by
  simp [isConnective]

@[simp]
theorem erased_under (owner : Nat) (node : Node) : (node.under owner).erased = node.erased := by
  obtain ⟨id, parent, kind, children⟩ := node
  rfl

@[simp]
theorem erasedAll_map_under (owner : Nat) (row : List Node) :
    erasedAll (row.map (under owner)) = erasedAll row := by
  simp [erasedAll_eq_map]

end Node

end DataCondition
