import DataCondition.Atom.Reading
import DataCondition.Atom.Writing

/-!
# The texts of literals

The literals of the grammar hold no character of a comparison symbol. A number or a truth value
never does, neither as it is written nor as it is read, so only other texts can.
-/

namespace DataCondition

/-- The characters that make a text a comparison. -/
def Comparison.marks : List Char := ['>', '<', '=']

/-- Whether a text can be a literal: it holds no character that makes a comparison. -/
def IsLiteral (text : Text) : Prop := ∀ char ∈ text, char ∉ Comparison.marks

instance (text : Text) : Decidable (IsLiteral text) := List.decidableBAll _ text

theorem isLiteral_nil : IsLiteral [] := List.forall_mem_nil _

theorem isLiteral_cons {char : Char} {text : Text} :
    IsLiteral (char :: text) ↔ char ∉ Comparison.marks ∧ IsLiteral text :=
  List.forall_mem_cons

theorem isLiteral_append {left right : Text} :
    IsLiteral (left ++ right) ↔ IsLiteral left ∧ IsLiteral right :=
  List.forall_mem_append

theorem IsLiteral.of_subset {text part : Text} (literal : IsLiteral text) (within : part ⊆ text) :
    IsLiteral part :=
  fun char member => literal char (within member)

theorem isLiteral_of_digits {text : Text} (digits : ∀ char ∈ text, char.isDigit) :
    IsLiteral text := by
  intro char member mark
  have digit := digits char member
  simp only [Comparison.marks, List.mem_cons, List.not_mem_nil, or_false] at mark
  rcases mark with rfl | rfl | rfl <;> cases digit

namespace Numeral

theorem isLiteral_ofNat (value : Nat) : IsLiteral (ofNat value) :=
  isLiteral_of_digits fun _ member => isDigit_of_mem_ofNat member

theorem isLiteral_ofInt (value : Int) : IsLiteral (ofInt value) := by
  unfold ofInt
  split
  · exact isLiteral_cons.mpr ⟨by decide, isLiteral_ofNat _⟩
  · exact isLiteral_ofNat _

theorem Magnitude.isDigit_of_mem_shortest (tieUp : Nat → Bool) (size : Magnitude) :
    ∀ char ∈ (size.shortest tieUp).digits, char.isDigit := by
  intro char member
  simp only [shortest] at member
  cases hit : (List.range 17).findSome? fun (count : Nat) =>
    let grid := size.firstExponent - count
    (size.onGrid? tieUp grid).map fun coefficient => digitsOf coefficient grid with
  | none =>
      obtain rfl : char = '0' := by simpa [hit] using member
      rfl
  | some number =>
      obtain ⟨count, -, found⟩ := List.exists_of_findSome?_eq_some hit
      obtain ⟨coefficient, -, rfl⟩ := Option.map_eq_some_iff.mp found
      rw [hit] at member
      have inside := (List.dropWhile_sublist _).mem (List.mem_reverse.mp member)
      exact isDigit_of_mem_ofNat (List.mem_reverse.mp inside)

theorem Layout.isLiteral_positional {number : Significant}
    (digits : ∀ char ∈ number.digits, char.isDigit) : IsLiteral (plain.positional number) := by
  have literal := isLiteral_of_digits digits
  have zeros : ∀ count, IsLiteral (List.replicate count '0') := fun count =>
    isLiteral_of_digits (by simp +contextual [List.mem_replicate])
  unfold positional
  simp only
  split
  · exact isLiteral_cons.mpr ⟨by decide, isLiteral_cons.mpr ⟨by decide,
      isLiteral_append.mpr ⟨zeros _, literal⟩⟩⟩
  split
  · exact isLiteral_append.mpr ⟨isLiteral_append.mpr ⟨literal, zeros _⟩, isLiteral_nil⟩
  · exact isLiteral_append.mpr ⟨literal.of_subset (List.take_subset _ _),
      isLiteral_cons.mpr ⟨by decide, literal.of_subset (List.drop_subset _ _)⟩⟩

/-- Numbers are written without comparison symbols. -/
theorem Layout.isLiteral_text (value : Float) : IsLiteral (plain.text value) := by
  have magnitude : ∀ size, IsLiteral (plain.magnitude size) := by
    intro size
    unfold Layout.magnitude
    split
    · decide
    · change IsLiteral (if true then plain.positional (size.shortest plain.tieUp) else _)
      rw [if_pos rfl]
      exact isLiteral_positional (size.isDigit_of_mem_shortest _)
  have body : IsLiteral (if value.isInf then ['i', 'n', 'f'] else
      plain.magnitude (.ofFloat value)) := by
    split
    · decide
    · exact magnitude _
  unfold Layout.text
  simp only
  split
  · decide
  split
  · exact isLiteral_cons.mpr ⟨by decide, body⟩
  · exact body

theorem isLiteral_of_natural? {text : Text} {value : Nat} (read : natural? text = some value) :
    IsLiteral text := by
  unfold natural? at read
  split at read
  next digits =>
    simp only [Bool.and_eq_true, List.all_eq_true] at digits
    exact isLiteral_of_digits digits.2
  next => cases read

theorem isLiteral_of_integer? {text : Text} {value : Int} (read : integer? text = some value) :
    IsLiteral text := by
  unfold integer? at read
  split at read
  · obtain ⟨magnitude, digits, -⟩ := Option.map_eq_some_iff.mp read
    exact isLiteral_cons.mpr ⟨by decide, isLiteral_of_natural? digits⟩
  · obtain ⟨magnitude, lifted, -⟩ := Option.map_eq_some_iff.mp read
    obtain ⟨size, digits, -⟩ := Option.bind_eq_some_iff.mp lifted
    exact isLiteral_cons.mpr ⟨by decide, isLiteral_of_natural? digits⟩
  · obtain ⟨magnitude, digits, -⟩ := Option.map_eq_some_iff.mp read
    exact isLiteral_of_natural? digits

theorem isLiteral_of_int64? {text : Text} {value : Int64} (read : int64? text = some value) :
    IsLiteral text := by
  obtain ⟨whole, found, -⟩ := Option.bind_eq_some_iff.mp read
  exact isLiteral_of_integer? found

namespace Decimal

theorem isLiteral_of_exponent? {text : Text} {value : Int} (read : exponent? text = some value) :
    IsLiteral text := by
  unfold exponent? at read
  split at read
  · exact isLiteral_nil
  · exact isLiteral_cons.mpr ⟨by decide, isLiteral_of_integer? read⟩
  · exact isLiteral_cons.mpr ⟨by decide, isLiteral_of_integer? read⟩
  · cases read

theorem isLiteral_of_unsigned? {negative : Bool} {text : Text} {value : Decimal}
    (read : unsigned? negative text = some value) : IsLiteral text := by
  have front : ∀ part : Text, IsLiteral (part.takeWhile Char.isDigit) := fun part =>
    isLiteral_of_digits (List.all_eq_true.mp List.all_takeWhile)
  rw [← List.takeWhile_append_dropWhile (p := Char.isDigit) (l := text), isLiteral_append]
  refine ⟨front text, ?_⟩
  simp only [unsigned?] at read
  split at read
  next point =>
    obtain ⟨-, scaled⟩ := (Option.ite_none_left_eq_some).mp read
    obtain ⟨exponent, scale, -⟩ := Option.bind_eq_some_iff.mp scaled
    obtain ⟨rest, tail⟩ := List.head?_eq_some_iff.mp point
    rw [tail, List.tail_cons] at scale
    rw [tail, isLiteral_cons, ← List.takeWhile_append_dropWhile (p := Char.isDigit) (l := rest),
      isLiteral_append]
    exact ⟨by decide, front rest, isLiteral_of_exponent? scale⟩
  next =>
    obtain ⟨-, scaled⟩ := (Option.ite_none_left_eq_some).mp read
    obtain ⟨exponent, scale, -⟩ := Option.bind_eq_some_iff.mp scaled
    exact isLiteral_of_exponent? scale

theorem isLiteral_of_ofText? {text : Text} {value : Decimal} (read : ofText? text = some value) :
    IsLiteral text := by
  unfold ofText? at read
  split at read
  · exact isLiteral_cons.mpr ⟨by decide, isLiteral_of_unsigned? read⟩
  · exact isLiteral_cons.mpr ⟨by decide, isLiteral_of_unsigned? read⟩
  · exact isLiteral_of_unsigned? read

end Decimal

end Numeral

/-- A text is a literal if it is one in lower case. -/
theorem isLiteral_of_map_toLower {text : Text} (lower : IsLiteral (text.map Char.toLower)) :
    IsLiteral text := by
  intro char member mark
  refine lower char.toLower (List.mem_map_of_mem member) ?_
  simp only [Comparison.marks, List.mem_cons, List.not_mem_nil, or_false] at mark
  rcases mark with rfl | rfl | rfl <;> decide

/-- The value of a text is written as a literal exactly if the text is one. -/
theorem Scalar.isLiteral_toText_ofText (text : Text) :
    IsLiteral (Scalar.ofText text).toText ↔ IsLiteral (Text.trim text) := by
  simp only [Scalar.ofText]
  split
  next value read =>
    exact iff_of_true (Numeral.isLiteral_ofInt _) (Numeral.isLiteral_of_int64? read)
  next value _ read =>
    exact iff_of_true (Numeral.Layout.isLiteral_text _)
      (Numeral.Decimal.isLiteral_of_ofText? read)
  split
  next lower =>
    exact iff_of_true (by decide) (isLiteral_of_map_toLower (by rw [lower]; decide))
  split
  next lower =>
    exact iff_of_true (by decide) (isLiteral_of_map_toLower (by rw [lower]; decide))
  next => rfl

end DataCondition
