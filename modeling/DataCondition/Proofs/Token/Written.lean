import DataCondition.Proofs.Token.Item
import DataCondition.Proofs.Token.Symbols

/-!
# The pieces of written items

However items are written, they are cut into the same pieces: the words of lists stay as they are,
and everything else is cut into words, symbols and parentheses.
-/

namespace DataCondition

open Text (IsGap isBlank isParenthesis words)

namespace Text

theorem isParenthesis_of_isBlank {char : Char} (blank : isBlank char) :
    isParenthesis char = false := by
  cases parenthesis : isParenthesis char with
  | false => rfl
  | true => simp [Text.isBlank_of_isParenthesis parenthesis] at blank

theorem isParenthesis_of_gap {gap : Text} (blank : IsGap gap) :
    ∀ char ∈ gap, isParenthesis char = false :=
  fun char member => isParenthesis_of_isBlank (blank char member)

end Text

namespace Word

/-- The words of a text in which parentheses are words of their own. -/
def rawWords (text : Text) : List Text := words (spaceParentheses text)

/-- Whether no word reaches from before this text into it. -/
def IsApart (text : Text) : Prop := ∀ char ∈ text.head?, isBlank char ∨ isParenthesis char

theorem spaceParentheses_append {block : Text} (plain : ∀ char ∈ block, isParenthesis char = false)
    (rest : Text) : spaceParentheses (block ++ rest) = block ++ spaceParentheses rest := by
  induction block with
  | nil => rfl
  | cons char block induction =>
      rw [List.forall_mem_cons] at plain
      rw [List.cons_append, spaceParentheses_cons, plain.1, if_neg Bool.false_ne_true,
        induction plain.2, List.cons_append]

theorem rawWords_append {block rest : Text} (plain : ∀ char ∈ block, isParenthesis char = false)
    (apart : IsApart rest) : rawWords (block ++ rest) = words block ++ rawWords rest := by
  rw [rawWords, spaceParentheses_append plain, Text.words_append_of_head?]
  · rfl
  · cases rest with
    | nil => simp [spaceParentheses]
    | cons char rest =>
        have first : isBlank char ∨ isParenthesis char := apart char rfl
        rw [spaceParentheses_cons]
        split
        next => simp [Text.isBlank_space]
        next plain => simpa [plain] using first

theorem rawWords_gap {gap : Text} (blank : IsGap gap) (rest : Text) :
    rawWords (gap ++ rest) = rawWords rest := by
  rw [rawWords, spaceParentheses_append (Text.isParenthesis_of_gap blank), Text.words_gap blank]
  rfl

theorem rawWords_parenthesis {char : Char} (parenthesis : isParenthesis char) (rest : Text) :
    rawWords (char :: rest) = [char] :: rawWords rest := by
  have unbroken : ∀ inside ∈ [char], isBlank inside = false := by
    simpa using Text.isBlank_of_isParenthesis parenthesis
  rw [rawWords, spaceParentheses_cons, if_pos parenthesis]
  have alone : words [' ', char] = [[char]] :=
    (Text.words_append_blank [] [char] Text.isBlank_space).trans
      (Text.words_of_forall (List.cons_ne_nil _ _) unbroken)
  have split := Text.words_append_blank [' ', char] (spaceParentheses rest) Text.isBlank_space
  rwa [alone] at split

/-- A gap is apart, and what follows no gap must be so itself. -/
theorem isApart_gap {gap rest : Text} (blank : IsGap gap) (apart : gap = [] → IsApart rest) :
    IsApart (gap ++ rest) := by
  cases gap with
  | nil => exact apart rfl
  | cons char gap =>
      rintro first ⟨⟩
      exact .inl (blank char List.mem_cons_self)

theorem isApart_parenthesis {char : Char} (parenthesis : isParenthesis char) (rest : Text) :
    IsApart (char :: rest) := by
  rintro first ⟨⟩
  exact .inr parenthesis

/-- A word without symbols is not cut. -/
theorem words_spaceComparisons_of_isReference {word : Text} (nonempty : word ≠ [])
    (reference : Atom.IsReference word) : words (spaceComparisons word) = [word] := by
  rw [spaceComparisons_of_plain reference.startsSymbol,
    Text.words_of_forall nonempty (reference.isSolid nonempty).unbroken]

theorem pieces_of_isReference {word : Text} (nonempty : word ≠ [])
    (reference : Atom.IsReference word) : pieces word = [.free word] := by
  rw [pieces, words_spaceComparisons_of_isReference nonempty reference, List.map_singleton]

/-- Where no list opens, words are cut each for itself. -/
theorem outside_append {front : List Text} (absent : Membership.member.word ∉ front)
    (rest : List Text) : outside (front ++ rest) = front.flatMap pieces ++ outside rest := by
  induction front with
  | nil => rfl
  | cons word front induction =>
      rw [List.mem_cons, not_or] at absent
      rw [List.flatMap_cons, List.append_assoc, ← induction absent.2, List.cons_append]
      cases front ++ rest with
      | nil => simp [outside]
      | cons next others => rw [outside, if_neg fun opens => absent.1 opens.1.symm]

/-- A block without parentheses is cut around its symbols. -/
theorem outside_block {block rest : Text} {parts : List Text}
    (plain : ∀ char ∈ block, isParenthesis char = false)
    (cut : words (spaceComparisons block) = parts) (absent : Membership.member.word ∉ parts)
    (apart : IsApart rest) :
    outside (rawWords (block ++ rest)) = parts.map .free ++ outside (rawWords rest) := by
  have pieces_eq : (words block).flatMap pieces = parts.map .free := by
    rw [← cut, ← flatMap_words_spaceComparisons, List.map_flatMap]
    rfl
  have single : pieces Membership.member.word = [.free Membership.member.word] := rfl
  rw [rawWords_append plain apart, outside_append, pieces_eq]
  intro opens
  have inside : .free Membership.member.word ∈ (words block).flatMap pieces :=
    List.mem_flatMap.mpr ⟨_, opens, by simp [single]⟩
  rw [pieces_eq] at inside
  simp [absent] at inside

end Word

namespace Item

open Word (IsApart IsSolid isApart_gap isApart_parenthesis rawWords outside inside outside_block)

/-- The piece that a part becomes. -/
def Part.piece : Part → Word.Piece
  | .word text | .sign text => .free text
  | .listed text => .listed text

/-- However these parts are written, they are cut into their pieces. -/
def AreCut (parts : List Part) : Prop :=
  ∀ afterWord text, Written afterWord parts text →
    outside (rawWords text) = parts.map Part.piece

/-- A word before these parts does not reach into them. -/
def StartApart (parts : List Part) : Prop :=
  ∀ part ∈ parts.head?, part.isWord ∨ part = .sign Word.opening ∨ part = .sign Word.closing

/-- What is written after a word is apart from it. -/
theorem Written.isApart {parts : List Part} {text : Text} (written : Written true parts text)
    (starts : StartApart parts) : IsApart text := by
  cases written with
  | nothing blank =>
      rw [← List.append_nil text]
      exact isApart_gap blank fun _ => by simp [IsApart]
  | @part _ gap rest part parts blank apart later =>
      refine isApart_gap blank fun none => ?_
      rcases starts part rfl with isWord | rfl | rfl
      · exact absurd none (apart rfl isWord)
      · exact isApart_parenthesis rfl rest
      · exact isApart_parenthesis rfl rest

/-- Blanks before a part make no words. -/
theorem Written.exists_rest {afterWord : Bool} {part : Part} {parts : List Part} {text : Text}
    (written : Written afterWord (part :: parts) text) :
    ∃ rest, rawWords text = rawWords (part.text ++ rest) ∧ Written part.isWord parts rest := by
  obtain _ | @⟨_, _, rest, _, _, blank, -, later⟩ := written
  exact ⟨rest, Word.rawWords_gap blank _, later⟩

theorem areCut_nil : AreCut [] := by
  intro afterWord text written
  obtain ⟨blank⟩ := written
  have none := Word.rawWords_gap blank []
  rw [List.append_nil] at none
  rw [none]
  rfl

section Parts

variable {parts : List Part} (later : AreCut parts)

include later

/-- A word that opens no list is a piece. -/
theorem AreCut.word {word : Text} (nonempty : word ≠ []) (reference : Atom.IsReference word)
    (other : word ≠ Membership.member.word) (starts : StartApart parts) :
    AreCut (.word word :: parts) := by
  intro afterWord text written
  obtain ⟨rest, same, written⟩ := written.exists_rest
  have solid := reference.isSolid nonempty
  have alone := Word.words_spaceComparisons_of_isReference nonempty reference
  have absent : Membership.member.word ∉ [word] := by simpa using Ne.symm other
  rw [same, Part.text, outside_block solid.plain alone absent (written.isApart starts),
    later _ _ written]
  rfl

theorem AreCut.plain {word : Text} (plain : Word.IsPlain word) (starts : StartApart parts) :
    AreCut (.word word :: parts) :=
  later.word plain.nonempty plain.reference plain.ne_member starts

theorem AreCut.copula (starts : StartApart parts) : AreCut (.word Word.copula :: parts) :=
  later.word (by decide) (by decide) (by decide) starts

theorem AreCut.negation (starts : StartApart parts) : AreCut (.word Word.negation :: parts) :=
  later.word (by decide) (by decide) (by decide) starts

/-- A comparison is cut at its symbol. -/
theorem AreCut.comparison {left right : Text} (first : Word.IsPlain left)
    (last : Word.IsPlain right) (operator : Comparison) (starts : StartApart parts) :
    AreCut (.word left :: .sign operator.symbol :: .word right :: parts) := by
  intro afterWord text written
  obtain ⟨_, same, written⟩ := written.exists_rest
  obtain _ | @⟨_, gap, _, _, _, blank, -, written⟩ := written
  obtain _ | @⟨_, gap', rest, _, _, blank', -, written⟩ := written
  let block := left ++ (gap ++ (operator.symbol ++ (gap' ++ right)))
  have shape : left ++ (gap ++ (operator.symbol ++ (gap' ++ (right ++ rest)))) =
      block ++ rest := by
    simp [block]
  have unopened : ∀ char ∈ block, isParenthesis char = false := by
    simp only [block, List.forall_mem_append]
    exact ⟨first.isSolid.plain, Text.isParenthesis_of_gap blank,
      (Word.isSolid_symbol operator).plain, Text.isParenthesis_of_gap blank', last.isSolid.plain⟩
  have cut : words (Word.spaceComparisons block) = [left, operator.symbol, right] := by
    have parts := Word.words_comparison operator first.reference.startsSymbol
      last.reference.startsSymbol blank blank'
    rwa [Text.words_of_forall first.nonempty first.isSolid.unbroken,
      Text.words_of_forall last.nonempty last.isSolid.unbroken] at parts
  have absent : Membership.member.word ∉ [left, operator.symbol, right] := by
    have symbol : Membership.member.word ≠ operator.symbol := by cases operator <;> decide
    simpa [symbol] using ⟨first.ne_member.symm, last.ne_member.symm⟩
  simp only [Part.text] at same
  rw [same, shape, outside_block unopened cut absent (written.isApart starts), later _ _ written]
  rfl

/-- A parenthesis is a piece of its own. -/
theorem AreCut.parenthesis {char : Char} (parenthesis : isParenthesis char) :
    AreCut (.sign [char] :: parts) := by
  intro afterWord text written
  obtain ⟨rest, same, written⟩ := written.exists_rest
  have alone : Word.pieces [char] = [.free [char]] := by
    simp only [isParenthesis, Bool.or_eq_true, decide_eq_true_eq] at parenthesis
    rcases parenthesis with rfl | rfl <;> rfl
  have absent : Membership.member.word ∉ [[char]] := by simp [Membership.word]
  have cut := Word.outside_append absent (rawWords rest)
  rw [List.flatMap_singleton, alone] at cut
  rw [same, Part.text, List.singleton_append, Word.rawWords_parenthesis parenthesis,
    ← List.singleton_append, cut, later _ _ written]
  rfl

end Parts

/-- However these parts are written inside a list, they become their pieces. -/
def AreListed (parts : List Part) : Prop :=
  ∀ afterWord text, Written afterWord parts text →
    inside (rawWords text) = parts.map Part.piece

/-- A list ends at its parenthesis. -/
theorem AreCut.closing {parts : List Part} (later : AreCut parts) :
    AreListed (.sign Word.closing :: parts) := by
  intro afterWord text written
  obtain ⟨rest, same, written⟩ := written.exists_rest
  rw [same, Part.text, Word.closing, List.singleton_append, Word.rawWords_parenthesis rfl, inside,
    if_pos (show [')'] = Word.closing from rfl), later _ _ written]
  rfl

section Listed

variable {parts : List Part} (later : AreListed parts)

include later

/-- Words of a list stay as they are. -/
theorem AreListed.listed {word : Text} (solid : IsSolid word) (starts : StartApart parts) :
    AreListed (.listed word :: parts) := by
  intro afterWord text written
  obtain ⟨rest, same, written⟩ := written.exists_rest
  have other : word ≠ Word.closing := by
    rintro rfl
    cases solid.plain ')' List.mem_cons_self
  rw [same, Part.text, Word.rawWords_append solid.plain (written.isApart starts),
    Text.words_of_forall solid.nonempty solid.unbroken, List.singleton_append, inside,
    if_neg other, later _ _ written]
  rfl

/-- The word `in` before a parenthesis opens a list. -/
theorem AreListed.opening :
    AreCut (.word Membership.member.word :: .sign Word.opening :: parts) := by
  intro afterWord text written
  obtain ⟨_, same, written⟩ := written.exists_rest
  have solid : IsSolid Membership.member.word := Word.isSolid_of_all (by decide) (by decide)
  have apart := written.isApart (by simp [StartApart])
  obtain ⟨rest, opened, written⟩ := written.exists_rest
  rw [same, Part.text, Word.rawWords_append solid.plain apart, opened, Part.text, Word.opening,
    List.singleton_append, Word.rawWords_parenthesis rfl,
    Text.words_of_forall solid.nonempty solid.unbroken,
    List.singleton_append, outside, if_pos ⟨rfl, rfl⟩, later _ _ written]
  rfl

end Listed

theorem startApart_word (word : Text) (parts : List Part) : StartApart (.word word :: parts) := by
  rintro part ⟨⟩
  exact .inl rfl

theorem startApart_list (list : List Word.Listed) (parts : List Part) :
    StartApart (list.map (fun word => .listed word) ++ .sign Word.closing :: parts) := by
  cases list <;> simp [StartApart, Part.isWord]

theorem areListed_list (list : List Word.Listed) {parts : List Part}
    (later : AreCut parts) :
    AreListed (list.map (fun word => .listed word) ++ .sign Word.closing :: parts) := by
  induction list with
  | nil => exact later.closing
  | cons word list induction => exact induction.listed word.2 (startApart_list list parts)

theorem startApart_parts (items : List Item) : StartApart (items.flatMap parts) := by
  cases items with
  | nil => simp [StartApart]
  | cons item items => cases item <;> simp [StartApart, parts, Part.isWord]

/-- However items are written, they are cut into their pieces. -/
theorem areCut_parts (items : List Item) : AreCut (items.flatMap parts) := by
  induction items with
  | nil => exact areCut_nil
  | cons item items later =>
      have starts := startApart_parts items
      have opens : isParenthesis '(' := rfl
      have closes : isParenthesis ')' := rfl
      rw [List.flatMap_cons]
      cases item with
      | comparison left relator right =>
          cases relator with
          | symbol operator => exact later.comparison left.2 right.2 operator starts
          | copula =>
              have copula := (later.plain right.2 starts).copula (startApart_word _ _)
              exact copula.plain left.2 (startApart_word _ _)
          | negatedCopula =>
              have negation := (later.plain right.2 starts).negation (startApart_word _ _)
              have copula := negation.copula (startApart_word _ _)
              exact copula.plain left.2 (startApart_word _ _)
      | membership subject operator list =>
          have list := (areListed_list list later).opening
          cases operator with
          | member =>
              have subject := list.plain subject.2 (startApart_word _ _)
              simpa [parts, membershipParts] using subject
          | notMember =>
              have negation := list.negation (startApart_word _ _)
              have subject := negation.plain subject.2 (startApart_word _ _)
              simpa [parts, membershipParts] using subject
      | connective link =>
          refine later.word ?_ ?_ ?_ starts
          all_goals cases link <;> decide
      | opening => exact later.parenthesis opens
      | closing => exact later.parenthesis closes

end Item

end DataCondition
