/-!
# Words and blanks

A text is the list of its characters. Blanks separate its words and do not count at its ends.
-/

namespace DataCondition

/-- A text is the list of its characters. -/
abbrev Text := List Char

namespace Text

/-- The blanks are the Unicode `White_Space` characters. -/
def isBlank (char : Char) : Bool :=
  let code := char.toNat
  (0x9 ≤ code && code ≤ 0xD) || code == 0x20 || code == 0x85 || code == 0xA0 || code == 0x1680 ||
    (0x2000 ≤ code && code ≤ 0x200A) || code == 0x2028 || code == 0x2029 || code == 0x202F ||
    code == 0x205F || code == 0x3000

/-- The words of a text are its longest runs without a blank, in order. -/
def words (text : Text) : List Text :=
  (text.splitOnP isBlank).filter fun word => !word.isEmpty

/-- The text from its first to its last character that is no blank. -/
def trim (text : Text) : Text :=
  ((text.dropWhile isBlank).reverse.dropWhile isBlank).reverse

/-- The trimmed text, unless nothing is left of it. -/
def nonBlank? (text : Text) : Option Text :=
  let core := trim text
  if core.isEmpty then none else some core

theorem isBlank_space : isBlank ' ' = true := rfl

/-- No word is empty. -/
theorem ne_nil_of_mem_words {text word : Text} (member : word ∈ words text) : word ≠ [] := by
  simp only [words, List.mem_filter, Bool.not_eq_true', List.isEmpty_eq_false_iff] at member
  exact member.2

end Text

end DataCondition
