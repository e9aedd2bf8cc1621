import DataCondition.Proofs.Token.Entry

/-!
# The decoding of membership tests

A test that was written with one membership word and one list is decoded as such, unless `not_in`
stands between spaces in the list of `in`. The text is then cut there, and what comes after the cut
is no list.
-/

namespace DataCondition

namespace Atom

open Text
open Word (IsSolid)

/-- A word has no other membership word after it than the one that is written. -/
theorem spaced_infix_iff {word : Text} (solid : IsSolid word) {operator other : Membership} :
    spaced other <:+: word ++ spaced operator ↔ other = operator := by
  have row : word ++ spaced operator = [' '].intercalate [word, operator.word, []] := by
    simp [spaced]
  have apart : ∀ part ∈ [word, operator.word, []], ' ' ∉ part := by
    cases operator <;> simp [space_not_mem solid, Membership.word]
  have unspaced : ' ' ∉ other.word := by cases other <;> decide
  have inner : other.word ∈ [word, operator.word, []].tail.dropLast ↔ other = operator := by
    cases other <;> cases operator <;> simp [Membership.word]
  rw [row, ← inner]
  exact infix_intercalate_iff unspaced apart

/-- What holds no opening parenthesis is no list. -/
theorem ofMembership_of_not_mem {operator : Membership} {left list text : Text}
    (unopened : '(' ∉ list) :
    ofMembership operator left list text = .error (.invalidAtom .unparenthesisedList text) := by
  have trimmed : '(' ∉ trim list := by
    intro inside
    have inked : '(' ∈ ink (trim list) := List.mem_filter.mpr ⟨inside, rfl⟩
    rw [ink_trim] at inked
    exact unopened (List.mem_filter.mp inked).1
  have unlisted : between? '(' ')' (trim list) = none := by
    cases shape : trim list with
    | nil => rfl
    | cons char rest =>
        rw [shape, List.mem_cons, not_or] at trimmed
        rw [between?, if_neg (Ne.symm trimmed.1)]
  rw [ofMembership, unlisted]

/-- A list in parentheses is decoded as it is written. -/
theorem ofMembership_parenthesised {left name : Text} (named : nonBlank? left = some name)
    (operator : Membership) (inner text : Text) :
    ofMembership operator left ('(' :: (inner ++ [')'])) text =
      .ok ⟨Attribute.ofText name, .search operator (literals inner)⟩ := by
  have trimmed : trim ('(' :: (inner ++ [')'])) = '(' :: (inner ++ [')']) := by
    apply trim_of_ends
    · rintro char ⟨⟩
      rfl
    · rw [← List.cons_append, List.getLast?_concat]
      rintro char ⟨⟩
      rfl
  have listed : between? '(' ')' ('(' :: (inner ++ [')'])) = some inner :=
    between?_eq_some_iff.mpr rfl
  rw [ofMembership, trimmed, listed]
  simp only [subject?, named]
  rfl

/-- A test that is cut at its membership word is decoded with the list after it. -/
theorem ofText_of_cut {operator : Membership} {left name inner : Text}
    (named : nonBlank? left = some name)
    (here : cut (spaced operator) (left ++ spaced operator ++ '(' :: (inner ++ [')'])) =
      some (left, '(' :: (inner ++ [')'])))
    (first : operator = .member →
      ¬ spaced .notMember <:+: left ++ spaced operator ++ '(' :: (inner ++ [')'])) :
    ofText (left ++ spaced operator ++ '(' :: (inner ++ [')'])) =
      .ok ⟨Attribute.ofText name, .search operator (literals inner)⟩ := by
  cases operator with
  | notMember =>
      rw [ofText, here]
      exact ofMembership_parenthesised named _ _ _
  | member =>
      rw [ofText, cut_spaced_eq_none_iff.mpr (first rfl), here]
      exact ofMembership_parenthesised named _ _ _

section Listed

variable {subject : Text} (solid : IsSolid subject) {inner : Text}

include solid

/-- The text of a test with `in` can be cut at `not_in` within the list only. -/
theorem cut_notMember (list : Text) :
    cut (spaced .notMember) (subject ++ spaced .member ++ '(' :: list) =
      (cut (spaced .notMember) list).map
        fun (before, after) => (subject ++ spaced .member ++ '(' :: before, after) :=
  cut_append_cons_of_not_infix (by decide) (by simp [spaced_infix_iff solid]) list

/-- Unless the list of `in` has `not_in` between spaces, the test is decoded as it is written. -/
theorem ofText_membership {operator : Membership}
    (first : operator = .member → ¬ spaced .notMember <:+: inner) :
    ofText (subject ++ spaced operator ++ '(' :: (inner ++ [')'])) =
      .ok ⟨Attribute.ofText subject, .search operator (literals inner)⟩ := by
  have here : cut (spaced operator) (subject ++ spaced operator ++ '(' :: (inner ++ [')'])) =
      some (subject, '(' :: (inner ++ [')'])) := by
    rw [List.append_assoc]
    exact cut_append_cons_of_not_mem (space_not_mem solid) _ _
  refine ofText_of_cut (nonBlank?_of_forall solid.nonempty solid.unbroken) here ?_
  rintro rfl
  rw [infix_append_cons_iff (by decide), infix_append_cons_iff (by decide),
    spaced_infix_iff solid, not_or, not_or]
  exact ⟨by simp, first rfl, by decide⟩

/-- Where the list of `in` has `not_in` between spaces, the test is refused. -/
theorem ofText_of_infix (unopened : '(' ∉ inner) (later : spaced .notMember <:+: inner) :
    ofText (subject ++ spaced .member ++ '(' :: (inner ++ [')'])) =
      .error (.invalidAtom .unparenthesisedList
        (subject ++ spaced .member ++ '(' :: (inner ++ [')']))) := by
  cases found : cut (spaced .notMember) (inner ++ [')']) with
  | none =>
      rw [cut_spaced_eq_none_iff] at found
      exact absurd (later.trans List.infix_append_left) found
  | some parts =>
      obtain ⟨before, after⟩ := parts
      have shape := append_of_cut found
      have absent : '(' ∉ after := by
        intro inside
        have within : '(' ∈ inner ++ [')'] := by
          rw [shape]
          exact List.mem_append_right _ inside
        simp [unopened] at within
      rw [ofText, cut_notMember solid, found]
      exact ofMembership_of_not_mem absent

end Listed

/-- The literals of a row are those of its entries, in order. -/
theorem literals_tightRow (entries : List Entry) :
    literals (Entry.tightRow entries) = entries.map fun entry => Scalar.ofText entry.text := by
  cases entries with
  | nil => rfl
  | cons entry entries =>
      obtain ⟨char, member, solid⟩ := entry.exists_solid_mem_text
      obtain ⟨tail, begins⟩ := exists_intercalate_cons [','] entry.text (entries.map Entry.text)
      have inked : nonBlank? (Entry.tightRow (entry :: entries)) ≠ none := by
        refine nonBlank?_ne_none ?_ solid
        rw [Entry.tightRow, List.map_cons, begins]
        exact List.mem_append_left _ member
      have apart : ∀ text ∈ (entry :: entries).map Entry.text, ',' ∉ text := by
        simpa using ⟨entry.comma_not_mem_text, fun other _ => other.comma_not_mem_text⟩
      have split : (Entry.tightRow (entry :: entries)).splitOn ',' =
          (entry :: entries).map Entry.text :=
        List.splitOn_intercalate ',' apart (by simp)
      rw [literals, if_neg (by simpa using inked), split, List.map_map]
      rfl

/-- Where `not_in` stands between spaces in a row, it is an inner word of an entry. -/
theorem misleads_iff {operator : Membership} {entries : List Entry} :
    Entry.Misleads operator entries ↔
      operator = .member ∧ spaced .notMember <:+: Entry.tightRow entries := by
  rw [Entry.Misleads, ← Entry.infix_tightRow_iff (by decide) (by decide)]
  rfl

section Entries

variable {subject : Text} (solid : IsSolid subject) {operator : Membership} {entries : List Entry}

include solid

theorem ofText_entries (clear : ¬ Entry.Misleads operator entries) :
    ofText (subject ++ spaced operator ++ '(' :: (Entry.tightRow entries ++ [')'])) =
      .ok ⟨Attribute.ofText subject,
        .search operator (entries.map fun entry => Scalar.ofText entry.text)⟩ := by
  rw [misleads_iff, not_and] at clear
  rw [ofText_membership solid clear, literals_tightRow]

theorem ofText_of_misleads (misleads : Entry.Misleads operator entries) :
    ofText (subject ++ spaced operator ++ '(' :: (Entry.tightRow entries ++ [')'])) =
      .error (.invalidAtom .unparenthesisedList
        (subject ++ spaced operator ++ '(' :: (Entry.tightRow entries ++ [')']))) := by
  obtain ⟨rfl, later⟩ := misleads_iff.mp misleads
  exact ofText_of_infix solid (Entry.opening_not_mem_tightRow entries) later

end Entries

end Atom

end DataCondition
