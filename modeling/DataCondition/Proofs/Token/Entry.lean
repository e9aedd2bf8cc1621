import DataCondition.Proofs.Text.Cut
import DataCondition.Proofs.Token.ListText

/-!
# The entries of a list

A list is written with a comma and a space between its entries. The text of a test has them on bare
commas, so that a word between two others of one entry is all that stands between spaces there.
-/

namespace DataCondition

open Text (isBlank isParenthesis trim)

/-- An entry of a list: words without a comma. -/
structure Entry where
  words : List Word.Listed
  nonempty : words ≠ []
  commaless : ∀ word ∈ words, ',' ∉ word.val

namespace Entry

/-- The texts of the words of an entry. -/
def parts (entry : Entry) : List Text := entry.words.map Subtype.val

/-- An entry as it is written, with its words on single spaces. -/
def text (entry : Entry) : Text := [' '].intercalate entry.parts

/-- The words of an entry that stand between two others. -/
def inner (entry : Entry) : List Text := entry.parts.tail.dropLast

/-- Entries as they are written, with a comma and a space between any two. -/
def row (entries : List Entry) : Text := [',', ' '].intercalate (entries.map text)

/-- Entries as they stand in the text of a test. -/
def tightRow (entries : List Entry) : Text := [','].intercalate (entries.map text)

/-- Whether an entry after `in` has the word `not_in` between two others. -/
def Misleads (operator : Membership) (entries : List Entry) : Prop :=
  operator = .member ∧ ∃ entry ∈ entries, Membership.notMember.word ∈ entry.inner

section Single

variable (entry : Entry)

theorem parts_ne_nil : entry.parts ≠ [] := by
  rw [parts, Ne, List.map_eq_nil_iff]
  exact entry.nonempty

theorem forall_mem_parts {property : Text → Prop}
    (each : ∀ word ∈ entry.words, property word.val) : ∀ part ∈ entry.parts, property part := by
  simpa [parts] using each

theorem ne_nil_of_mem_parts : ∀ part ∈ entry.parts, part ≠ [] :=
  entry.forall_mem_parts fun word _ => word.2.nonempty

theorem isBlank_of_mem_parts : ∀ part ∈ entry.parts, ∀ char ∈ part, isBlank char = false :=
  entry.forall_mem_parts fun word _ => word.2.unbroken

theorem space_not_mem_parts : ∀ part ∈ entry.parts, ' ' ∉ part :=
  entry.forall_mem_parts fun word _ => Atom.space_not_mem word.2

theorem text_ne_nil : entry.text ≠ [] :=
  Text.intercalate_ne_nil entry.ne_nil_of_mem_parts _ entry.parts_ne_nil

theorem trim_text : trim entry.text = entry.text :=
  Text.trim_intercalate entry.ne_nil_of_mem_parts entry.isBlank_of_mem_parts

theorem comma_not_mem_text : ',' ∉ entry.text := by
  have apart : ∀ char ∈ entry.text, char ≠ ',' :=
    (Text.forall_mem_intercalate (by simp)).mpr (entry.forall_mem_parts
      fun word member char inside => ne_of_mem_of_not_mem inside (entry.commaless word member))
  exact fun inside => apart ',' inside rfl

theorem isParenthesis_text : ∀ char ∈ entry.text, isParenthesis char = false := by
  have between : ∀ char ∈ [' '], isParenthesis char = false := List.forall_mem_singleton.mpr rfl
  exact (Text.forall_mem_intercalate between).mpr
    (entry.forall_mem_parts fun word _ => word.2.plain)

theorem exists_solid_mem_text : ∃ char ∈ entry.text, isBlank char = false := by
  obtain ⟨part, rest, shape⟩ := List.exists_cons_of_ne_nil entry.parts_ne_nil
  have member : part ∈ entry.parts := by simp [shape]
  obtain ⟨char, more, rfl⟩ := List.exists_cons_of_ne_nil (entry.ne_nil_of_mem_parts part member)
  obtain ⟨tail, begins⟩ := Text.exists_intercalate_cons [' '] (char :: more) rest
  refine ⟨char, ?_, entry.isBlank_of_mem_parts _ member char List.mem_cons_self⟩
  rw [text, shape, begins]
  simp

end Single

theorem isParenthesis_intercalate {joint : Text}
    (between : ∀ char ∈ joint, isParenthesis char = false) (entries : List Entry) :
    ∀ char ∈ joint.intercalate (entries.map text), isParenthesis char = false :=
  (Text.forall_mem_intercalate between).mpr
    (by simpa using fun entry _ => entry.isParenthesis_text)

theorem isParenthesis_row (entries : List Entry) :
    ∀ char ∈ row entries, isParenthesis char = false :=
  isParenthesis_intercalate (by simp [isParenthesis]) entries

theorem opening_not_mem_tightRow (entries : List Entry) : '(' ∉ tightRow entries := by
  intro inside
  have plain := isParenthesis_intercalate (List.forall_mem_singleton.mpr rfl) entries '(' inside
  cases plain

theorem row_cons (entry : Entry) {entries : List Entry} (more : entries ≠ []) :
    row (entry :: entries) = entry.text ++ ',' :: ' ' :: row entries := by
  rw [row, List.map_cons, List.intercalate_cons_of_ne_nil (by simpa using more)]
  simp [row]

theorem tightRow_cons (entry : Entry) {entries : List Entry} (more : entries ≠ []) :
    tightRow (entry :: entries) = entry.text ++ ',' :: tightRow entries := by
  rw [tightRow, List.map_cons, List.intercalate_cons_of_ne_nil (by simpa using more)]
  simp [tightRow]

theorem row_ne_nil {entries : List Entry} (more : entries ≠ []) : row entries ≠ [] :=
  Text.intercalate_ne_nil (by simpa using fun entry _ => entry.text_ne_nil) _ (by simpa using more)

/-- All words of a row stand on single spaces. -/
theorem isSpaced_row (entries : List Entry) : Text.IsSpaced (row entries) := by
  induction entries with
  | nil => rfl
  | cons entry entries induction =>
      have spaced : ∀ tail : Text, (∀ char ∈ tail, isBlank char = false) →
          Text.IsSpaced (entry.text ++ tail) := fun _ =>
        Text.isSpaced_append entry.ne_nil_of_mem_parts entry.isBlank_of_mem_parts
      by_cases alone : entries = []
      · subst alone
        simpa [row] using spaced [] (List.forall_mem_nil _)
      · rw [row_cons entry alone, List.append_cons]
        exact (spaced [','] (List.forall_mem_singleton.mpr rfl)).append_space induction (by simp)
          (row_ne_nil alone)

theorem squeeze_row (entries : List Entry) : Token.squeeze (row entries) = tightRow entries := by
  induction entries with
  | nil => rfl
  | cons entry entries induction =>
      by_cases alone : entries = []
      · subst alone
        simp [row, tightRow, Token.squeeze_of_not_mem entry.comma_not_mem_text, entry.trim_text]
      · obtain ⟨char, more, shape⟩ := List.exists_cons_of_ne_nil (row_ne_nil alone)
        rw [row_cons entry alone, tightRow_cons entry alone,
          Token.squeeze_append_comma entry.comma_not_mem_text, entry.trim_text, shape,
          Token.squeeze_space, ← shape, induction]

/-- The text of a test has the entries that are written. -/
theorem compact_words_row (entries : List Entry) :
    Token.compact (Text.words (row entries)) = tightRow entries := by
  have spaced : [' '].intercalate (Text.words (row entries)) = row entries := isSpaced_row entries
  rw [Token.compact, spaced]
  exact squeeze_row entries

/-- A word without a comma stands between spaces exactly if it is an inner word of an entry. -/
theorem infix_tightRow_iff {word : Text} (unspaced : ' ' ∉ word) (commaless : ',' ∉ word)
    (entries : List Entry) :
    ' ' :: word ++ [' '] <:+: tightRow entries ↔ ∃ entry ∈ entries, word ∈ entry.inner := by
  have absent : ',' ∉ ' ' :: word ++ [' '] := by simp [commaless]
  have single : ∀ entry : Entry, ' ' :: word ++ [' '] <:+: entry.text ↔ word ∈ entry.inner :=
    fun entry => Text.infix_intercalate_iff unspaced entry.space_not_mem_parts
  induction entries with
  | nil => simp [tightRow]
  | cons entry entries induction =>
      by_cases alone : entries = []
      · subst alone
        simpa [tightRow] using single entry
      · rw [tightRow_cons entry alone, Text.infix_append_cons_iff absent, single]
        simp only [List.mem_cons, exists_eq_or_imp, induction]

end Entry

end DataCondition
