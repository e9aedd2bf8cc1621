import DataCondition.Json.Basic
import DataCondition.Json.Quoted

/-!
# Written strings are read back

Every character of a string is read as it was written, whether it was escaped or not. So a string is
told from its text, and so is where it ends.
-/

namespace DataCondition

namespace Json

namespace Quoted

/-- The characters that are written as a letter after a backslash. -/
def lettered : List Char := ['"', '\\', '\x08', '\t', '\n', '\x0c', '\r']

theorem escape_of_not_mem {char : Char} (other : char ∉ lettered) :
    escape char =
      if char.toNat < 0x20 then '\\' :: 'u' :: '0' :: '0' :: controlDigits char.toNat
      else [char] := by
  have differ {code : Nat} (listed : Char.ofNat code ∈ lettered) : char.toNat ≠ code := by
    rintro rfl
    rw [Char.ofNat_toNat] at listed
    exact other listed
  unfold escape
  split
  case h_8 => rfl
  all_goals exact absurd ‹_› (differ (by decide))

/-- A letter after a backslash stands for its character. -/
theorem scan_letter {letter char : Char} (stands : simpleEscape? letter = some char)
    (read : List Piece) (rest : Text) :
    scan read ('\\' :: letter :: rest) = scan (.char char :: read) rest := by
  have notHex : letter ≠ 'u' := by
    rintro rfl
    cases stands
  simp [scan, notHex, stands]

/-- A control character stands in four hexadecimal digits. -/
theorem scan_control {code : Nat} (control : code < 0x20) (read : List Piece) (rest : Text) :
    scan read ('\\' :: 'u' :: '0' :: '0' :: (controlDigits code ++ rest)) =
      scan (.unit code :: read) rest := by
  have units : ∀ code : Fin 0x20, unit? ('0' :: '0' :: controlDigits code) = some code.val := by
    decide
  have found : unit? ['0', '0', Nat.digitChar (code / 16), Nat.digitChar (code % 16)] =
      some code := units ⟨code, control⟩
  rw [controlDigits, List.cons_append, List.cons_append, List.nil_append, scan, found]

/-- Any other character stands for itself. -/
theorem scan_plain {char : Char} (other : char ∉ lettered) (visible : ¬ char.toNat < 0x20)
    (read : List Piece) (rest : Text) :
    scan read (char :: rest) = scan (.char char :: read) rest := by
  have notQuote : char ≠ '"' := fun same => other (by rw [same]; decide)
  have notBackslash : char ≠ '\\' := fun same => other (by rw [same]; decide)
  simp [scan, notBackslash, visible]

/-- The piece that a written character is read as. -/
def Piece.ofChar (char : Char) : Piece :=
  if char.toNat < 0x20 ∧ char ∉ lettered then .unit char.toNat else .char char

theorem scan_escape (read : List Piece) (char : Char) (rest : Text) :
    scan read (escape char ++ rest) = scan (.ofChar char :: read) rest := by
  unfold Piece.ofChar
  by_cases letter : char ∈ lettered
  · rw [if_neg fun control => control.2 letter]
    simp only [lettered, List.mem_cons, List.not_mem_nil, or_false] at letter
    rcases letter with rfl | rfl | rfl | rfl | rfl | rfl | rfl
    all_goals exact scan_letter rfl read rest
  · rw [escape_of_not_mem letter]
    by_cases control : char.toNat < 0x20
    · rw [if_pos control, if_pos ⟨control, letter⟩]
      exact scan_control control read rest
    · rw [if_neg control, if_neg fun both => control both.1]
      exact scan_plain letter control read rest

/-- A written string is read up to its closing quote, whatever comes after it. -/
theorem scan_flatMap_escape (read : List Piece) (value rest : Text) :
    scan read (value.flatMap escape ++ '"' :: rest) =
      ⟨read.reverse ++ value.map .ofChar, none, rest⟩ := by
  induction value generalizing read with
  | nil => simp [scan]
  | cons char value induction =>
      rw [List.flatMap_cons, List.append_assoc, scan_escape, induction]
      simp

theorem content_ofChar (char : Char) (rest : List Piece) :
    content none none (.ofChar char :: rest) = (content none none rest).map (char :: ·) := by
  unfold Piece.ofChar
  split
  next control =>
    have small : char.toNat < 0x20 := control.1
    have noTrailing : isTrailing char.toNat = false := by
      simp [isTrailing]
      omega
    have noLeading : isLeading char.toNat = false := by
      simp [isLeading]
      omega
    simp [content, noTrailing, noLeading]
  next => rfl

theorem content_map_ofChar (value : Text) : content none none (value.map .ofChar) = .ok value := by
  induction value with
  | nil => rfl
  | cons char value induction =>
      rw [List.map_cons, content_ofChar, induction]
      rfl

/-- A string is read back from its text, and what comes after it is left. -/
theorem scan_quoted (value rest : Text) :
    (scan [] (value.flatMap escape ++ '"' :: rest)).content = .ok value ∧
      (scan [] (value.flatMap escape ++ '"' :: rest)).rest = rest := by
  rw [scan_flatMap_escape]
  exact ⟨content_map_ofChar value, rfl⟩

end Quoted

/-- Strings are told apart by their texts, and so is what comes after them. -/
theorem quoted_append_inj {left right rest rest' : Text}
    (same : quoted left ++ rest = quoted right ++ rest') : left = right ∧ rest = rest' := by
  have inner : left.flatMap escape ++ '"' :: rest = right.flatMap escape ++ '"' :: rest' := by
    simpa [quoted] using same
  obtain ⟨read, behind⟩ := Quoted.scan_quoted left rest
  rw [inner, (Quoted.scan_quoted right rest').1] at read
  rw [inner, (Quoted.scan_quoted right rest').2] at behind
  exact ⟨(Except.ok.inj read).symm, behind.symm⟩

end Json

end DataCondition
