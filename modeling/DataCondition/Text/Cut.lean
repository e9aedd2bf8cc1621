import DataCondition.Text.Blank

/-!
# Cutting a text at a mark

A text is cut at the first place where a mark stands; a closing mark is taken off its end.
-/

namespace DataCondition

namespace Text

/-- The parts before and after the first place where `mark` stands. -/
def cut (mark : Text) : Text → Option (Text × Text)
  | [] => if mark.isEmpty then some ([], []) else none
  | char :: rest =>
    if mark.isPrefixOf (char :: rest) then
      some ([], (char :: rest).drop mark.length)
    else
      (cut mark rest).map fun (before, after) => (char :: before, after)

/-- The text without the closing mark at its end. -/
def dropClosing? (mark : Char) (text : Text) : Option Text :=
  if text.getLast? = some mark then some text.dropLast else none

/-- What stands between an opening mark at the start and a closing mark at the end. -/
def between? (opening closing : Char) : Text → Option Text
  | [] => none
  | char :: rest => if char = opening then dropClosing? closing rest else none

/-- A cut loses the mark and nothing else. -/
theorem append_of_cut {mark text before after : Text}
    (found : cut mark text = some (before, after)) : text = before ++ mark ++ after := by
  induction text generalizing before with
  | nil =>
      simp only [cut, List.isEmpty_iff] at found
      split at found <;> simp_all
  | cons char rest induction =>
      simp only [cut] at found
      split at found
      next starts =>
        obtain ⟨rfl, rfl⟩ := by simpa using found
        obtain ⟨tail, equation⟩ := List.isPrefixOf_iff_prefix.mp starts
        rw [← equation]
        simp
      next =>
        obtain ⟨⟨first, last⟩, cutRest, equation⟩ := Option.map_eq_some_iff.mp found
        obtain ⟨rfl, rfl⟩ := by simpa using equation
        simp [induction cutRest]

end Text

end DataCondition
