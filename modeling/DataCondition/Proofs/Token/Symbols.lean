import DataCondition.Atom.Reading
import DataCondition.Proofs.Token.Piece

/-!
# Comparison symbols in a text

Spacing comparison symbols makes them words of their own. What stands before the first character
that a symbol can start with is left as it is.
-/

namespace DataCondition

open Text (isBlank words words_append_blank isBlank_space)
open Atom (startsSymbol)

theorem startsSymbol_eq_false {char : Char} :
    startsSymbol char = false ↔ char ≠ '>' ∧ char ≠ '<' ∧ char ≠ '=' ∧ char ≠ '!' := by
  simp [startsSymbol, and_assoc]

namespace Comparison

theorem append_of_read? {text rest : Text} {comparison : Comparison}
    (found : read? text = some (comparison, rest)) : text = comparison.symbol ++ rest := by
  unfold read? at found
  split at found <;> cases found <;> rfl

/-- A symbol is read as far as it goes, if no longer one stands there. -/
theorem read?_symbol_append (comparison : Comparison) {rest : Text}
    (apart : rest.head? ≠ some '=') :
    read? (comparison.symbol ++ rest) = some (comparison, rest) := by
  cases rest with
  | nil => cases comparison <;> rfl
  | cons char rest =>
      have other : char ≠ '=' := by simpa using apart
      cases comparison <;> simp [symbol, read?, other]

end Comparison

namespace Word

theorem spaceComparisons_cons {char : Char} (plain : startsSymbol char = false) (rest : Text) :
    spaceComparisons (char :: rest) = char :: spaceComparisons rest := by
  obtain ⟨greater, less, equal, negated⟩ := startsSymbol_eq_false.mp plain
  rw [spaceComparisons]
  · simp [greater, less, equal]
  · exact fun _ same => absurd same greater
  · exact fun _ same => absurd same less
  · exact fun _ same => absurd same negated

/-- What starts no symbol stays as it is. -/
theorem spaceComparisons_append {left : Text} (plain : ∀ char ∈ left, startsSymbol char = false)
    (rest : Text) : spaceComparisons (left ++ rest) = left ++ spaceComparisons rest := by
  induction left with
  | nil => rfl
  | cons char left induction =>
      rw [List.forall_mem_cons] at plain
      rw [List.cons_append, spaceComparisons_cons plain.1, induction plain.2, List.cons_append]

/-- A symbol has spaces put around it. -/
theorem spaceComparisons_of_read? {text rest : Text} {comparison : Comparison}
    (found : Comparison.read? text = some (comparison, rest)) :
    spaceComparisons text = ' ' :: comparison.symbol ++ ' ' :: spaceComparisons rest := by
  unfold Comparison.read? at found
  split at found
  next => cases found; rfl
  next => cases found; rfl
  next => cases found; rfl
  next rest apart =>
    cases found
    rw [spaceComparisons]
    · rfl
    · exact fun others _ => apart others
    all_goals simp
  next rest apart =>
    cases found
    rw [spaceComparisons]
    · rfl
    · simp
    · exact fun others _ => apart others
    · simp
  next rest =>
    cases found
    rw [spaceComparisons]
    · rfl
    all_goals simp
  next => cases found

/-- A symbol is a word of its own. -/
theorem words_append_spaceComparisons {text rest : Text} {comparison : Comparison} (left : Text)
    (found : Comparison.read? text = some (comparison, rest)) :
    words (left ++ spaceComparisons text) =
      words left ++ comparison.symbol :: words (spaceComparisons rest) := by
  have alone : words comparison.symbol = [comparison.symbol] := by
    cases comparison <;> rfl
  rw [spaceComparisons_of_read? found, List.cons_append,
    words_append_blank left _ isBlank_space, words_append_blank _ _ isBlank_space, alone]
  rfl

theorem spaceComparisons_of_plain {text : Text} (plain : ∀ char ∈ text, startsSymbol char = false) :
    spaceComparisons text = text := by
  have all := spaceComparisons_append plain []
  simpa [spaceComparisons] using all

theorem startsSymbol_of_isBlank {char : Char} (blank : isBlank char) :
    startsSymbol char = false := by
  rw [startsSymbol_eq_false]
  refine ⟨?_, ?_, ?_, ?_⟩ <;> rintro rfl <;> cases blank

/-- No symbol reaches across a blank. -/
theorem spaceComparisons_append_blank (left right : Text) {blank : Char} (is : isBlank blank) :
    spaceComparisons (left ++ blank :: right) =
      spaceComparisons left ++ blank :: spaceComparisons right := by
  have plain := startsSymbol_of_isBlank is
  have starts : ∀ rest others : Text, rest ++ blank :: right = '=' :: others →
      ∃ part, rest = '=' :: part := by
    rintro (_ | ⟨char, rest⟩) others same
    · exact absurd (List.cons.inj same).1 (startsSymbol_eq_false.mp plain).2.2.1
    · exact ⟨rest, by rw [(List.cons.inj same).1]⟩
  fun_induction spaceComparisons left with
  | case1 rest induction => simp [spaceComparisons, induction]
  | case2 rest induction => simp [spaceComparisons, induction]
  | case3 rest induction => simp [spaceComparisons, induction]
  | case4 char rest apart apart' apart'' symbol induction =>
      rw [List.cons_append, spaceComparisons, if_pos symbol, induction]
      · rfl
      · exact fun others is same => (starts rest others same).elim (apart · is)
      · exact fun others is same => (starts rest others same).elim (apart' · is)
      · exact fun others is same => (starts rest others same).elim (apart'' · is)
  | case5 char rest apart apart' apart'' other induction =>
      rw [List.cons_append, spaceComparisons, if_neg other, induction]
      · rfl
      · exact fun others is same => (starts rest others same).elim (apart · is)
      · exact fun others is same => (starts rest others same).elim (apart' · is)
      · exact fun others is same => (starts rest others same).elim (apart'' · is)
  | case6 => exact spaceComparisons_cons plain right

theorem flatMap_words_of_unbroken {text : Text} (unbroken : ∀ char ∈ text, isBlank char = false) :
    (words text).flatMap (fun word => words (spaceComparisons word)) =
      words (spaceComparisons text) := by
  by_cases none : text = []
  · subst none
    rfl
  · rw [Text.words_of_forall none unbroken, List.flatMap_singleton]

theorem flatMap_words_append {before : Text} (unbroken : ∀ char ∈ before, isBlank char = false)
    (text : Text) :
    (words (before ++ text)).flatMap (fun word => words (spaceComparisons word)) =
      words (spaceComparisons (before ++ text)) := by
  induction text generalizing before with
  | nil =>
      rw [List.append_nil]
      exact flatMap_words_of_unbroken unbroken
  | cons char rest induction =>
      by_cases blank : isBlank char
      · have later := @induction [] (by simp)
        rw [words_append_blank before rest blank, List.flatMap_append,
          flatMap_words_of_unbroken unbroken, spaceComparisons_append_blank before rest blank,
          words_append_blank _ _ blank, ← List.nil_append rest, later]
      · rw [List.append_cons]
        apply induction
        intro inside member
        rcases List.mem_append.mp member with front | back
        · exact unbroken inside front
        · rw [List.mem_singleton.mp back]
          simpa using blank

/-- Words are cut around symbols as the whole text is. -/
theorem flatMap_words_spaceComparisons (text : Text) :
    (words text).flatMap (fun word => words (spaceComparisons word)) =
      words (spaceComparisons text) :=
  @flatMap_words_append [] (by simp) text

theorem startsSymbol_of_gap {gap : Text} (blank : Text.IsGap gap) :
    ∀ char ∈ gap, startsSymbol char = false :=
  fun char member => startsSymbol_of_isBlank (blank char member)

/-- A symbol may have blanks around it or not. -/
theorem words_comparison {left right gap gap' : Text} (comparison : Comparison)
    (plain : ∀ char ∈ left, startsSymbol char = false)
    (plain' : ∀ char ∈ right, startsSymbol char = false) (blank : Text.IsGap gap)
    (blank' : Text.IsGap gap') :
    words (spaceComparisons (left ++ (gap ++ (comparison.symbol ++ (gap' ++ right))))) =
      words left ++ comparison.symbol :: words right := by
  have before : ∀ char ∈ left ++ gap, startsSymbol char = false :=
    List.forall_mem_append.mpr ⟨plain, startsSymbol_of_gap blank⟩
  have after : ∀ char ∈ gap' ++ right, startsSymbol char = false :=
    List.forall_mem_append.mpr ⟨startsSymbol_of_gap blank', plain'⟩
  have apart : (gap' ++ right).head? ≠ some '=' := by
    intro first
    have other := after '=' (List.mem_of_mem_head? first)
    cases other
  have trailing : words (left ++ gap) = words left := by
    have none := Text.words_gap blank []
    rw [List.append_nil] at none
    rw [Text.words_append_of_head?, none]
    · exact List.append_nil _
    · exact fun char first => blank char (List.mem_of_mem_head? first)
  rw [← List.append_assoc, spaceComparisons_append before,
    words_append_spaceComparisons _ (Comparison.read?_symbol_append comparison apart), trailing,
    spaceComparisons_of_plain after, Text.words_gap blank']

end Word

end DataCondition
