import DataCondition.Proofs.Json.Quoted
import DataCondition.Proofs.Numeral.Whole

/-!
# Exact documents are told apart

The first character of a value tells what kind of value it is, and brackets, quotes and commas tell
where its parts end. So a document without doubles is determined by its compact text. Only whole
numbers show no end of their own: they are compared where no further digit follows.
-/

namespace DataCondition

namespace Json

/-- A value that holds no doubles. -/
inductive IsExact : Json → Prop
  | null : IsExact .null
  | boolean (value : Bool) : IsExact (.boolean value)
  | integer (value : Int) : IsExact (.integer value)
  | string (value : Text) : IsExact (.string value)
  | array {items : List Json} (each : ∀ item ∈ items, IsExact item) : IsExact (.array items)
  | object {members : List (Text × Json)} (each : ∀ member ∈ members, IsExact member.2) :
      IsExact (.object members)

/-! ## Whole numbers -/

/-- The characters of whole numbers. -/
def isNumeric (char : Char) : Bool := char = '-' || char.isDigit

/-- No whole number goes on in this text. -/
def Ends (rest : Text) : Prop := ∀ char ∈ rest.head?, isNumeric char = false

/-- No text starts with the texts of two different items, and an item tells where its text ends. -/
def Discerns {α : Type} (text : α → Text) (left right : α) : Prop :=
  ∀ rest rest', Ends rest → Ends rest' → text left ++ rest = text right ++ rest' →
    left = right ∧ rest = rest'

theorem isNumeric_of_mem_ofInt {value : Int} :
    ∀ char ∈ Numeral.ofInt value, isNumeric char := by
  have digits : ∀ char ∈ Numeral.ofNat value.natAbs, isNumeric char := by
    intro char member
    simp [isNumeric, Numeral.isDigit_of_mem_ofNat member]
  unfold Numeral.ofInt
  split
  next => exact List.forall_mem_cons.mpr ⟨rfl, digits⟩
  next => exact digits

theorem ofInt_ne_nil (value : Int) : Numeral.ofInt value ≠ [] := by
  intro none
  have read := Numeral.integer?_ofInt value
  rw [none] at read
  cases read

theorem takeWhile_append_of_ends {left rest : Text} (inside : ∀ char ∈ left, isNumeric char)
    (ends : Ends rest) : (left ++ rest).takeWhile isNumeric = left := by
  have stops : rest.takeWhile isNumeric = [] := by
    cases rest with
    | nil => rfl
    | cons char rest => exact List.takeWhile_cons_of_neg (by simp [ends char rfl])
  rw [List.takeWhile_append_of_pos inside, stops, List.append_nil]

theorem discerns_ofInt (left right : Int) : Discerns Numeral.ofInt left right := by
  intro rest rest' ends ends' same
  have digits : Numeral.ofInt left = Numeral.ofInt right := by
    rw [← takeWhile_append_of_ends isNumeric_of_mem_ofInt ends, same,
      takeWhile_append_of_ends isNumeric_of_mem_ofInt ends']
  rw [digits] at same
  have read := Numeral.integer?_ofInt left
  rw [digits, Numeral.integer?_ofInt] at read
  exact ⟨(Option.some.inj read).symm, List.append_cancel_left same⟩

/-! ## First characters -/

/-- The kinds of exact values. -/
inductive Form where
  | null
  | boolean
  | integer
  | string
  | array
  | object
deriving DecidableEq, Repr

/-- The kind of a value, as if its doubles were whole. -/
def form : Json → Form
  | .null => .null
  | .boolean _ => .boolean
  | .integer _ | .real _ => .integer
  | .string _ => .string
  | .array _ => .array
  | .object _ => .object

/-- The kind of the exact values that start with this character. -/
def Form.ofChar? (char : Char) : Option Form :=
  if isNumeric char then some .integer
  else match char with
    | 'n' => some .null
    | 't' | 'f' => some .boolean
    | '"' => some .string
    | '[' => some .array
    | '\x7b' => some .object
    | _ => none

theorem IsExact.exists_first {value : Json} (exact : value.IsExact) :
    ∃ char tail, value.toText = char :: tail ∧ Form.ofChar? char = some value.form := by
  cases exact with
  | boolean value => cases value <;> exact ⟨_, _, rfl, rfl⟩
  | integer value =>
      obtain ⟨char, tail, shape⟩ := List.exists_cons_of_ne_nil (ofInt_ne_nil value)
      refine ⟨char, tail, shape, if_pos (@isNumeric_of_mem_ofInt value char ?_)⟩
      rw [shape]
      exact List.mem_cons_self
  | _ => exact ⟨_, _, rfl, rfl⟩

theorem IsExact.exists_first_ne {value : Json} (exact : value.IsExact) {close : Char}
    (unused : Form.ofChar? close = none) :
    ∃ char tail, value.toText = char :: tail ∧ char ≠ close := by
  obtain ⟨char, tail, shape, is⟩ := exact.exists_first
  refine ⟨char, tail, shape, ?_⟩
  rintro rfl
  cases unused.symm.trans is

/-- Values of different kinds are told apart by their first characters. -/
theorem IsExact.discerns_of_form {left right : Json} (exact : left.IsExact)
    (exact' : right.IsExact) (alike : left.form = right.form → Discerns toText left right) :
    Discerns toText left right := by
  intro rest rest' ends ends' same
  refine alike ?_ rest rest' ends ends' same
  obtain ⟨char, tail, shape, is⟩ := exact.exists_first
  obtain ⟨char', tail', shape', is'⟩ := exact'.exists_first
  rw [shape, shape'] at same
  obtain rfl := (List.cons.inj same).1
  exact Option.some.inj (is.symm.trans is')

/-! ## Rows of items -/

section Rows

variable {α : Type} {text : α → Text} {close : Char}

/-- The texts of items with a comma before each of them. -/
def listed (text : α → Text) (row : List α) : Text := row.flatMap fun item => ',' :: text item

/-- The texts of items with commas between them. -/
def joined (text : α → Text) : List α → Text
  | [] => []
  | item :: row => text item ++ listed text row

theorem listed_append_inj {row row' : List α} (separate : close ≠ ',')
    (ends : isNumeric close = false)
    (discern : ∀ left ∈ row, ∀ right ∈ row', Discerns text left right) {rest rest' : Text}
    (same : listed text row ++ close :: rest = listed text row' ++ close :: rest') :
    row = row' ∧ rest = rest' := by
  have stops (row : List α) (rest : Text) : Ends (listed text row ++ close :: rest) := by
    cases row with
    | nil => simpa [listed, Ends] using ends
    | cons item row => simp [listed, Ends, isNumeric]
  induction row generalizing row' with
  | nil =>
      cases row' with
      | nil => exact ⟨rfl, (List.cons.inj same).2⟩
      | cons right row' => exact absurd (List.cons.inj same).1 separate
  | cons left row induction =>
      cases row' with
      | nil => exact absurd (List.cons.inj same).1.symm separate
      | cons right row' =>
          have inner : text left ++ (listed text row ++ close :: rest) =
              text right ++ (listed text row' ++ close :: rest') := by
            simpa [listed] using same
          obtain ⟨rfl, later⟩ := discern left List.mem_cons_self right List.mem_cons_self _ _
            (stops row rest) (stops row' rest') inner
          obtain ⟨rfl, behind⟩ := induction (fun left isLeft right isRight =>
            discern left (List.mem_cons_of_mem _ isLeft) right (List.mem_cons_of_mem _ isRight))
            later
          exact ⟨rfl, behind⟩

/-- A closing mark that no item starts with tells where a row ends. -/
theorem joined_append_inj {row row' : List α} (separate : close ≠ ',')
    (ends : isNumeric close = false)
    (opens : ∀ item ∈ row ++ row', ∃ char tail, text item = char :: tail ∧ char ≠ close)
    (discern : ∀ left ∈ row, ∀ right ∈ row', Discerns text left right) {rest rest' : Text}
    (same : joined text row ++ close :: rest = joined text row' ++ close :: rest') :
    row = row' ∧ rest = rest' := by
  cases row with
  | nil =>
      cases row' with
      | nil => exact ⟨rfl, (List.cons.inj same).2⟩
      | cons right row' =>
          obtain ⟨char, tail, shape, differ⟩ := opens right (by simp)
          rw [joined, joined, shape] at same
          exact absurd (List.cons.inj same).1.symm differ
  | cons left row =>
      cases row' with
      | nil =>
          obtain ⟨char, tail, shape, differ⟩ := opens left (by simp)
          rw [joined, joined, shape] at same
          exact absurd (List.cons.inj same).1 differ
      | cons right row' =>
          apply listed_append_inj separate ends discern
          simpa [joined, listed] using same

end Rows

theorem itemsText_eq (items : List Json) : itemsText items = joined toText items := by
  induction items with
  | nil => rfl
  | cons value rest induction =>
      cases rest with
      | nil => simp [itemsText, joined, listed]
      | cons next rest =>
          rw [itemsText, induction]
          simp [joined, listed]

/-- The text of a member of an object. -/
def memberText (member : Text × Json) : Text := quoted member.1 ++ ':' :: member.2.toText

theorem membersText_eq (members : List (Text × Json)) :
    membersText members = joined memberText members := by
  induction members with
  | nil => rfl
  | cons member rest induction =>
      obtain ⟨name, value⟩ := member
      cases rest with
      | nil => simp [membersText, joined, listed, memberText]
      | cons next rest =>
          rw [membersText, induction]
          simp [joined, listed, memberText]

/-! ## Values of one kind -/

theorem discerns_boolean (left right : Bool) :
    Discerns toText (.boolean left) (.boolean right) := by
  intro rest rest' ends ends' same
  obtain rfl : left = right := by
    cases left <;> cases right <;> simp [toText] at same ⊢
  exact ⟨rfl, List.append_cancel_left same⟩

theorem discerns_integer (left right : Int) :
    Discerns toText (.integer left) (.integer right) := by
  intro rest rest' ends ends' same
  obtain ⟨rfl, behind⟩ := discerns_ofInt left right rest rest' ends ends' same
  exact ⟨rfl, behind⟩

theorem discerns_string (left right : Text) :
    Discerns toText (.string left) (.string right) := by
  intro rest rest' ends ends' same
  obtain ⟨rfl, behind⟩ := quoted_append_inj same
  exact ⟨rfl, behind⟩

theorem discerns_array {left right : List Json} (exact : ∀ item ∈ left, item.IsExact)
    (exact' : ∀ item ∈ right, item.IsExact)
    (discern : ∀ item ∈ left, ∀ item' ∈ right, Discerns toText item item') :
    Discerns toText (.array left) (.array right) := by
  intro rest rest' ends ends' same
  have all : ∀ item ∈ left ++ right, item.IsExact := List.forall_mem_append.mpr ⟨exact, exact'⟩
  have inner : joined toText left ++ ']' :: rest = joined toText right ++ ']' :: rest' := by
    simpa [toText, itemsText_eq] using same
  obtain ⟨rfl, behind⟩ := joined_append_inj (by decide) rfl
    (fun item member => (all item member).exists_first_ne rfl) discern inner
  exact ⟨rfl, behind⟩

theorem discerns_memberText {left right : Text × Json}
    (values : Discerns toText left.2 right.2) : Discerns memberText left right := by
  intro rest rest' ends ends' same
  obtain ⟨name, value⟩ := left
  obtain ⟨name', value'⟩ := right
  rw [memberText, memberText, List.append_assoc, List.append_assoc] at same
  obtain ⟨rfl, inner⟩ := quoted_append_inj same
  obtain ⟨rfl, behind⟩ := values rest rest' ends ends' (List.cons.inj inner).2
  exact ⟨rfl, behind⟩

theorem discerns_object {left right : List (Text × Json)}
    (discern : ∀ member ∈ left, ∀ member' ∈ right, Discerns toText member.2 member'.2) :
    Discerns toText (.object left) (.object right) := by
  intro rest rest' ends ends' same
  have inner : joined memberText left ++ '\x7d' :: rest =
      joined memberText right ++ '\x7d' :: rest' := by
    simpa [toText, membersText_eq] using same
  -- every member starts with the quote of its name
  obtain ⟨rfl, behind⟩ := joined_append_inj (by decide) rfl (fun _ _ => ⟨_, _, rfl, by decide⟩)
    (fun member isLeft member' isRight =>
      discerns_memberText (discern member isLeft member' isRight)) inner
  exact ⟨rfl, behind⟩

/-! ## Documents -/

/-- Exact values are told apart, and so is what comes after them if no number goes on there. -/
theorem IsExact.discerns {left right : Json} (exact : left.IsExact) (exact' : right.IsExact) :
    Discerns toText left right := by
  induction exact generalizing right with
  | null =>
      refine IsExact.null.discerns_of_form exact' fun form => ?_
      cases exact' with
      | null => exact fun _ _ _ _ same => ⟨rfl, List.append_cancel_left same⟩
      | _ => cases form
  | boolean value =>
      refine (IsExact.boolean value).discerns_of_form exact' fun form => ?_
      cases exact' with
      | boolean value' => exact discerns_boolean value value'
      | _ => cases form
  | integer value =>
      refine (IsExact.integer value).discerns_of_form exact' fun form => ?_
      cases exact' with
      | integer value' => exact discerns_integer value value'
      | _ => cases form
  | string value =>
      refine (IsExact.string value).discerns_of_form exact' fun form => ?_
      cases exact' with
      | string value' => exact discerns_string value value'
      | _ => cases form
  | array each induction =>
      refine (IsExact.array each).discerns_of_form exact' fun form => ?_
      cases exact' with
      | array each' =>
          exact discerns_array each each' fun item isItem item' isItem' =>
            induction item isItem (each' item' isItem')
      | _ => cases form
  | object each induction =>
      refine (IsExact.object each).discerns_of_form exact' fun form => ?_
      cases exact' with
      | object each' =>
          exact discerns_object fun member isMember member' isMember' =>
            induction member isMember (each' member' isMember')
      | _ => cases form

/-- Exact documents are determined by their compact texts. -/
theorem IsExact.eq_of_toText_eq {left right : Json} (exact : left.IsExact)
    (exact' : right.IsExact) (same : left.toText = right.toText) : left = right := by
  have ends : Ends [] := by simp [Ends]
  exact (exact.discerns exact' [] [] ends ends (by rw [same])).1

end Json

end DataCondition
