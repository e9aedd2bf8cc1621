import DataCondition.Proofs.Token.FlatLists
import DataCondition.Proofs.Token.Joined

/-!
# The parentheses of tokens

Tokens have the parentheses of the words that they come from. The text of a test never closes more
than it opens, and it closes all that it opens exactly if its lists are flat.
-/

namespace DataCondition

namespace Token

open Text
open Word (IsNormal FlatLists)

theorem parentheses_operator (operator : Membership) : parentheses operator.word = [] := by
  cases operator <;> rfl

theorem parentheses_membershipText (subject : Text) (operator : Membership) (items : List Text) :
    parentheses (membershipText subject operator items) =
      parentheses subject ++ ('(' :: parentheses items.flatten ++ [')']) := by
  simp [membershipText, parentheses_cons, parentheses_operator, isParenthesis,
    parentheses_eq_of_ink (ink_compact items)]

namespace Tests

variable {words : List Text} {text : Text}

theorem covered (tests : Tests words text) (normal : ∀ word ∈ words, IsNormal word) :
    Covered text := by
  induction tests with
  | @plain word role =>
      have solid := isSolid_of_plain (normal word (List.mem_singleton_self word)) role
      exact covered_of_not_mem (solid.not_mem rfl)
  | membership before operator items unclosed induction =>
      rw [List.forall_mem_append, List.forall_mem_cons, List.forall_mem_cons,
        List.forall_mem_append] at normal
      rw [← covered_parentheses, parentheses_membershipText]
      have list : Covered items.flatten := by
        apply covered_of_not_mem
        rwa [Word.mem_flatten_iff normal.2.2.2.1 rfl]
      have subject := covered_parentheses.mpr (induction normal.1)
      exact subject.append (covered_parentheses.mpr list).enclose

/-- A test closes what it opens exactly if its lists are flat, whatever stands after them. -/
theorem flatLists_append (tests : Tests words text) (normal : ∀ word ∈ words, IsNormal word)
    (rest : List Text) : FlatLists (words ++ rest) ↔ Closed text ∧ FlatLists rest := by
  induction tests generalizing rest with
  | @plain word role =>
      have solid := isSolid_of_plain (normal word (List.mem_singleton_self word)) role
      have other : ∀ operator : Membership, word ≠ operator.word := by
        rintro operator rfl
        cases operator <;> cases role
      have closed : Closed word := (closed_iff_not_mem (solid.not_mem rfl)).mpr (solid.not_mem rfl)
      rw [List.singleton_append, Word.flatLists_cons rest other, and_iff_right closed]
  | @membership words subject before operator items unclosed induction =>
      rw [List.forall_mem_append, List.forall_mem_cons, List.forall_mem_cons,
        List.forall_mem_append] at normal
      have list : ∀ {char}, isParenthesis char → (char ∈ items.flatten ↔ [char] ∈ items) :=
        Word.mem_flatten_iff normal.2.2.2.1
      have covered := before.covered normal.1
      have inner : ')' ∉ items.flatten := by rwa [list rfl]
      have enclosed := (covered_parentheses.mpr (covered_of_not_mem inner)).enclose
      have shape : words ++ operator.word :: Word.opening :: (items ++ [Word.closing]) ++ rest =
          words ++ (operator.word :: Word.opening :: (items ++ Word.closing :: rest)) := by simp
      rw [shape, induction normal.1, Word.flatLists_list operator rest unclosed,
        ← @closed_parentheses (membershipText ..), parentheses_membershipText,
        (covered_parentheses.mpr covered).closed_append enclosed, closed_parentheses,
        closed_enclose, closed_parentheses, closed_iff_not_mem inner, list rfl, and_assoc]
      rfl

end Tests

/-- As for a test; all other tokens have no list. -/
theorem Spells.flatLists_append {words : List Text} {token : Token} (spells : Spells words token)
    (normal : ∀ word ∈ words, IsNormal word) (rest : List Text) :
    FlatLists (words ++ rest) ↔ (∀ text, .atom text = token → Closed text) ∧ FlatLists rest := by
  cases spells with
  | atom tests => simp [tests.flatLists_append normal]
  | connective link =>
      have other : ∀ operator : Membership, link.word ≠ operator.word := by
        intro operator
        cases link <;> cases operator <;> decide
      simp [Word.flatLists_cons rest other]
  | opening => simp [Word.flatLists_cons rest Word.opening_ne_operator]
  | closing => simp [Word.flatLists_cons rest Word.closing_ne_operator]

namespace Consumed

variable {words : List Text} {done : List Token}

theorem parentheses_eq (consumed : Consumed words done) :
    parentheses (join done.reverse) = parentheses words.flatten :=
  parentheses_eq_of_ink consumed.ink_eq

theorem covered (consumed : Consumed words done) (normal : ∀ word ∈ words, IsNormal word)
    {text : Text} (member : .atom text ∈ done) : Covered text := by
  obtain ⟨part, tests, within⟩ := consumed.exists_tests member
  exact tests.covered fun word inside => normal word (within word inside)

/-- The lists of a row of words are flat exactly if every test closes what it opens. -/
theorem flatLists_append (consumed : Consumed words done)
    (normal : ∀ word ∈ words, IsNormal word) (rest : List Text) :
    FlatLists (words ++ rest) ↔ (∀ text, .atom text ∈ done → Closed text) ∧ FlatLists rest := by
  induction consumed generalizing rest with
  | nil => simp
  | next before spells induction =>
      rw [List.forall_mem_append] at normal
      rw [List.append_assoc, induction normal.1, spells.flatLists_append normal.2]
      simp only [List.mem_cons, or_imp, forall_and]
      rw [and_left_comm, and_assoc]

end Consumed

end Token

end DataCondition
