import Mathlib.Data.List.Forall2
import DataCondition.Proofs.Json.Exact
import DataCondition.Proofs.Tree.Nodes
import DataCondition.Tree.Rendering

/-!
# Trees are told apart by their documents

The document of a tree holds the numbers, the kind and the children of every node, so nothing of the
tree is lost in its text. A test is told from every other kind of node, whatever its text is.
-/

namespace DataCondition

namespace Node

/-! ## Kinds -/

/-- The text that the document of a kind holds beside its word. -/
def Kind.text? : Kind → Option Text
  | .atom text => some text
  | .connective link => some link.word
  | .root | .group | .disjunct | .conjunction => none

theorem Kind.json_eq (kind : Kind) :
    kind.json = .object (("kind".toList, .string kind.tag) ::
      (kind.text?.map fun text => ("text".toList, Json.string text)).toList) := by
  cases kind <;> rfl

theorem Kind.isExact_json (kind : Kind) : kind.json.IsExact := by
  rw [json_eq]
  apply Json.IsExact.object
  rw [List.forall_mem_cons]
  refine ⟨.string _, fun member isMember => ?_⟩
  obtain ⟨text, -, rfl⟩ := Option.map_eq_some_iff.mp (Option.mem_toList.mp isMember)
  exact .string text

/-- The kind with this word and this text in its document. -/
def Kind.ofTag (tag : Text) (text? : Option Text) : Kind :=
  if tag = root.tag then .root
  else if tag = group.tag then .group
  else if tag = disjunct.tag then .disjunct
  else if tag = conjunction.tag then .conjunction
  else if tag = (connective .and).tag then
    .connective (if text? = some Connective.and.word then .and else .or)
  else .atom (text?.getD [])

theorem Kind.ofTag_tag (kind : Kind) : ofTag kind.tag kind.text? = kind := by
  cases kind with
  | connective link => cases link <;> rfl
  | _ => rfl

theorem Kind.json_inj {kind kind' : Kind} (same : kind.json = kind'.json) : kind = kind' := by
  rw [json_eq, json_eq, Json.object.injEq, List.cons.injEq, Prod.mk.injEq,
    Json.string.injEq] at same
  obtain ⟨⟨-, tags⟩, texts⟩ := same
  have texts : kind.text? = kind'.text? := by
    cases found : kind.text? <;> cases found' : kind'.text? <;> simp_all
  rw [← kind.ofTag_tag, tags, texts, ofTag_tag]

/-! ## Nodes -/

/-- The number of the owner in a document. -/
def ownerJson : Option Nat → Json
  | none => .null
  | some number => .integer number

theorem ownerJson_inj {parent parent' : Option Nat} (same : ownerJson parent = ownerJson parent') :
    parent = parent' := by
  cases parent with
  | none =>
      cases parent' with
      | none => rfl
      | some number' => cases same
  | some number =>
      cases parent' with
      | none => cases same
      | some number' => exact congrArg some (Int.ofNat.inj (Json.integer.inj same))

theorem json_eq (node : Node) :
    node.json = .object [("id".toList, .integer node.id), ("parent".toList, ownerJson node.parent),
      ("kind".toList, node.kind.json), ("children".toList, .array (node.children.map json))] := by
  have all (row : List Node) : jsonAll row = row.map json := by
    induction row with
    | nil => rfl
    | cons node rest induction => rw [jsonAll, induction, List.map_cons]
  obtain ⟨id, parent, kind, children⟩ := node
  rw [json, all]
  cases parent <;> rfl

theorem isExact_json (node : Node) : node.json.IsExact := by
  induction node using Node.induction with
  | step id parent kind children induction =>
      have owner : (ownerJson parent).IsExact := by
        cases parent with
        | none => exact .null
        | some number => exact .integer number
      have below : (Json.array (children.map json)).IsExact :=
        .array (List.forall_mem_map.mpr induction)
      rw [json_eq]
      apply Json.IsExact.object
      simp only [List.forall_mem_cons]
      exact ⟨.integer id, owner, kind.isExact_json, below, List.forall_mem_nil _⟩

theorem json_inj {left right : Node} (same : left.json = right.json) : left = right := by
  induction left using Node.induction generalizing right with
  | step id parent kind children induction =>
      obtain ⟨id', parent', kind', children'⟩ := right
      simp only [json_eq, Json.object.injEq, List.cons.injEq, Prod.mk.injEq, true_and, and_true,
        Json.integer.injEq, Json.array.injEq] at same
      obtain ⟨number, owner, kinds, below⟩ := same
      -- the children are compared pair by pair, so that the induction applies to each of them
      have pairs : List.Forall₂ (fun child child' => child.json = child'.json) children
          children' := by
        rwa [← List.forall₂_eq_eq_eq, List.forall₂_map_left_iff,
          List.forall₂_map_right_iff] at below
      have each : ∀ child ∈ children, ∀ child' : Node, child.json = child'.json → child = child' :=
        fun child member _ same => induction child member same
      have equal : List.Forall₂ (· = ·) children children' :=
        ((List.forall₂_and_left _ _).mpr ⟨each, pairs⟩).imp
          fun _ child' both => both.1 child' both.2
      rw [List.forall₂_eq_eq_eq] at equal
      rw [Int.ofNat.inj number, ownerJson_inj owner, Kind.json_inj kinds, equal]

/--
Trees have the same document exactly if they are the same. In particular a test is told from a node
of another kind whose label it has as its text.
-/
theorem toText_json_eq_iff (left right : Node) :
    (left.json.toText = right.json.toText ↔ left = right) ∧
      (left.kind = .atom right.label → ¬ right.isAtom →
        left.json.toText ≠ right.json.toText) := by
  have inj : left.json.toText = right.json.toText ↔ left = right := by
    constructor
    · exact fun same => json_inj (left.isExact_json.eq_of_toText_eq right.isExact_json same)
    · rintro rfl
      rfl
  refine ⟨inj, fun isTest other same => ?_⟩
  obtain rfl := inj.mp same
  exact other (by rw [isAtom, atom?, isTest]; rfl)

/-- A test with the text `and` is told from a conjunction and from a connective. -/
theorem toText_json_of_and :
    let test : Node := ⟨1, none, .atom "and".toList, []⟩
    let conjunction : Node := ⟨1, none, .conjunction, []⟩
    let link : Node := ⟨1, none, .connective .and, []⟩
    test.json.toText = ("\x7b\"id\":1,\"parent\":null,\"kind\":\x7b\"kind\":\"atom\"," ++
        "\"text\":\"and\"\x7d,\"children\":[]\x7d").toList ∧
      (test.kind = .atom conjunction.label ∧ ¬ conjunction.isAtom ∧
        test.json.toText ≠ conjunction.json.toText) ∧
      (test.kind = .atom link.label ∧ ¬ link.isAtom ∧ test.json.toText ≠ link.json.toText) := by
  intro test conjunction link
  have written : test.json.toText =
      ("\x7b\"id\":1,\"parent\":null,\"kind\":\x7b\"kind\":\"atom\"," ++
        "\"text\":\"and\"\x7d,\"children\":[]\x7d").toList := by
    decide +kernel
  exact ⟨written, ⟨rfl, by decide, (toText_json_eq_iff test conjunction).2 rfl (by decide)⟩,
    ⟨rfl, by decide, (toText_json_eq_iff test link).2 rfl (by decide)⟩⟩

end Node

end DataCondition
