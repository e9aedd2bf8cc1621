import DataCondition.Proofs.Atom.Comparison
import DataCondition.Proofs.Token.ListText
import DataCondition.Proofs.Token.Written

/-!
# The tokens of written items

Every item folds to its own normal words and is read as its own token, whatever stands before it and
after it.
-/

namespace DataCondition

open Word (IsPlain IsSolid Folding copula negation isOperand reserved)
open Word.Folding (join start complete step)

namespace Comparison

theorem exists_startsSymbol (comparison : Comparison) :
    ∃ char ∈ comparison.symbol, Atom.startsSymbol char := by
  cases comparison <;> exact ⟨_, List.mem_cons_self, rfl⟩

theorem ofSymbol?_of_isReference {word : Text} (reference : Atom.IsReference word) :
    ofSymbol? word = none := by
  rw [Option.eq_none_iff_forall_ne_some]
  intro comparison found
  obtain rfl := eq_symbol_of_ofSymbol? found
  obtain ⟨char, inside, starts⟩ := comparison.exists_startsSymbol
  simp [reference.startsSymbol char inside] at starts

end Comparison

namespace Word

theorem IsPlain.not_mem_reserved {word : Text} (plain : IsPlain word) : word ∉ reserved := by
  have opening : word ≠ Word.opening := by
    rintro rfl
    cases plain.isSolid.plain '(' List.mem_cons_self
  have closing : word ≠ Word.closing := by
    rintro rfl
    cases plain.isSolid.plain ')' List.mem_cons_self
  have others := plain.unreserved
  simp only [keywords, reserved, List.mem_cons, not_or] at others ⊢
  simp [opening, closing, others]

theorem isOperand_iff {word : Text} : isOperand word ↔ word ∉ reserved := by
  simp [isOperand]

/-- A word with a symbol in it is not reserved. -/
theorem not_mem_reserved_of_symbol (left right : Text) (comparison : Comparison) :
    left ++ comparison.symbol ++ right ∉ reserved := by
  have unmarked : reserved.all fun word => word.all fun char => !Atom.startsSymbol char := by
    decide
  rw [List.all_eq_true] at unmarked
  intro member
  obtain ⟨char, inside, starts⟩ := comparison.exists_startsSymbol
  have plain := List.all_eq_true.mp (unmarked _ member) char (by simp [inside])
  simp [starts] at plain

namespace Folding

/-- A word without symbols that is no part of a spelling of one is kept. -/
theorem start_of_isReference (done : List Text) {word : Text} (reference : Atom.IsReference word)
    (uncopied : word ≠ copula) (unnegated : word ≠ negation) :
    start done word = ⟨word :: done, .nothing⟩ := by
  rw [start, if_neg uncopied, if_neg unnegated, Comparison.ofSymbol?_of_isReference reference]
  rfl

theorem start_of_isPlain (done : List Text) {word : Text} (plain : IsPlain word) :
    start done word = ⟨word :: done, .nothing⟩ :=
  start_of_isReference done plain.reference (plain.ne_of_mem (by decide))
    (plain.ne_of_mem (by decide))

theorem join_of_isPlain (done : List Text) {left : Text} (plain : IsPlain left) (symbol : Text) :
    join (left :: done) symbol = (done, left ++ symbol) := by
  rw [join, if_pos (isOperand_iff.mpr plain.not_mem_reserved)]

theorem complete_of_isPlain (done : List Text) (joined : Text) {right : Text}
    (plain : IsPlain right) :
    complete done joined right = ⟨(joined ++ right) :: done, .nothing⟩ := by
  rw [complete, if_pos (isOperand_iff.mpr plain.not_mem_reserved)]

/-- A symbol waits with the operand on its left for one on its right. -/
theorem start_symbol (done : List Text) {left : Text} (plain : IsPlain left)
    (comparison : Comparison) :
    start (left :: done) comparison.symbol = ⟨done, .operand (left ++ comparison.symbol)⟩ := by
  have other : comparison.symbol ≠ copula ∧ comparison.symbol ≠ negation := by
    cases comparison <;> decide
  rw [start, if_neg other.1, if_neg other.2, comparison.ofSymbol?_symbol,
    join_of_isPlain done plain]
  rfl

end Folding

/-- Whatever stands before them, these pieces fold to these words, and nothing is pending. -/
def Folds (pieces : List Piece) (words : List Text) : Prop :=
  ∀ done, pieces.foldl step ⟨done, .nothing⟩ = ⟨words.reverse ++ done, .nothing⟩

theorem folds_nil : Folds [] [] := fun _ => rfl

theorem Folds.append {pieces pieces' : List Piece} {words words' : List Text}
    (first : Folds pieces words) (later : Folds pieces' words') :
    Folds (pieces ++ pieces') (words ++ words') := by
  intro done
  rw [List.foldl_append, first, later]
  simp

/-- Pieces that fold to words wherever they stand have them as their normal words. -/
theorem Folds.fold_eq {pieces : List Piece} {words : List Text} (folds : Folds pieces words) :
    fold pieces = words := by
  rw [fold, folds []]
  simp [Folding.flush]

theorem folds_free {word : Text} (plain : IsPlain word) : Folds [.free word] [word] :=
  fun done => Folding.start_of_isPlain done plain

theorem folds_listed (words : List Text) : Folds (words.map .listed) words := by
  induction words with
  | nil => exact folds_nil
  | cons word words later =>
      have first : Folds [.listed word] [word] := fun _ => rfl
      exact first.append later

end Word

namespace Item

open Word (Folds folds_nil folds_free folds_listed)

/-- The normal words of an item. -/
def normalWords : Item → List Text
  | .comparison left relator right => [left ++ relator.comparison.symbol ++ right]
  | .membership subject operator list =>
    subject :: operator.word :: Word.opening :: (list.map Subtype.val ++ [Word.closing])
  | .connective link => [link.word]
  | .opening => [Word.opening]
  | .closing => [Word.closing]

theorem folds_comparison (left right : Word.Plain) (relator : Relator) :
    Folds ((Item.comparison left relator right).parts.map Part.piece)
      [left ++ relator.comparison.symbol ++ right] := by
  intro done
  have first : step ⟨done, .nothing⟩ (.free left) = ⟨left :: done, .nothing⟩ :=
    Folding.start_of_isPlain done left.2
  have last : ∀ joined : Text,
      step ⟨done, .operand joined⟩ (.free right) = ⟨(joined ++ right) :: done, .nothing⟩ :=
    fun joined => Folding.complete_of_isPlain done joined right.2
  have joined := Folding.join_of_isPlain done left.2
  have copies : step ⟨left :: done, .nothing⟩ (.free copula) = ⟨left :: done, .copula⟩ := rfl
  cases relator with
  | symbol operator =>
      have middle : step ⟨left :: done, .nothing⟩ (.free operator.symbol) =
          ⟨done, .operand (left ++ operator.symbol)⟩ :=
        Folding.start_symbol done left.2 operator
      change step (step (step _ (.free left)) (.free operator.symbol)) (.free right) = _
      rw [first, middle, last]
      rfl
  | copula =>
      have other : right.val ≠ negation := right.2.ne_of_mem (by decide)
      have joins : step ⟨left :: done, .copula⟩ (.free right) =
          complete done (left ++ Comparison.equal.symbol) right := by
        simp only [step, if_neg other, joined]
      change step (step (step _ (.free left)) (.free copula)) (.free right) = _
      rw [first, copies, joins]
      exact last _
  | negatedCopula =>
      have joins : step ⟨left :: done, .copula⟩ (.free negation) =
          ⟨done, .operand (left ++ Comparison.notEqual.symbol)⟩ := by
        simp [step, joined]
      change step (step (step (step _ (.free left)) (.free copula)) (.free negation)) (.free right)
        = _
      rw [first, copies, joins, last]
      rfl

theorem folds_membership (subject : Word.Plain) (operator : Membership)
    (list : List Word.Listed) :
    Folds ((Item.membership subject operator list).parts.map Part.piece)
      (Item.membership subject operator list).normalWords := by
  have first : Folds [.free subject] [subject.val] := folds_free subject.2
  have word : Folds ((membershipParts operator).map Part.piece) [operator.word] := by
    cases operator with
    | member => exact fun _ => rfl
    | notMember => exact fun _ => rfl
  have opens : Folds [.free Word.opening] [Word.opening] := fun _ => rfl
  have closes : Folds [.free Word.closing] [Word.closing] := fun _ => rfl
  have all := first.append (word.append (opens.append
    ((folds_listed (list.map Subtype.val)).append closes)))
  simpa [parts, normalWords, Part.piece, Function.comp_def] using all

/-- The parts of items fold to their normal words. -/
theorem folds_parts (items : List Item) :
    Folds ((items.flatMap parts).map Part.piece) (items.flatMap normalWords) := by
  induction items with
  | nil => exact folds_nil
  | cons item items later =>
      rw [List.flatMap_cons, List.flatMap_cons, List.map_append]
      refine Folds.append ?_ later
      cases item with
      | comparison left relator right => exact folds_comparison left right relator
      | membership subject operator list => exact folds_membership subject operator list
      | connective link => cases link <;> exact fun _ => rfl
      | opening => exact fun _ => rfl
      | closing => exact fun _ => rfl

/-- However items are written, the words of the condition are those of the items. -/
theorem words_of_written {items : List Item} {condition : Text}
    (written : Written false (items.flatMap parts) condition) :
    Condition.words condition = items.flatMap normalWords := by
  have cut := areCut_parts items false condition written
  change Word.fold (Word.outside (Word.rawWords condition)) = _
  rw [cut, (folds_parts items).fold_eq]

theorem role_of_not_mem {word : Text} (unreserved : word ∉ reserved) :
    Token.role word = .plain := by
  simp only [reserved, List.mem_cons, List.not_mem_nil, or_false, not_or] at unreserved
  simp [Token.role, unreserved]

/-- All words up to the closing parenthesis are taken as the words of a list. -/
theorem readList_append {position opened : Nat} {subject : Text} {operator : Membership}
    {items : List Text} {done : List Token} {list : List Text} (unclosed : Word.closing ∉ list)
    (rest : List Text) :
    ∃ after, Token.readList position opened subject operator items done
        (list ++ Word.closing :: rest) =
      Token.read after
        (.atom (Token.membershipText subject operator (items.reverse ++ list)) :: done) rest := by
  induction list generalizing position items with
  | nil =>
      rw [List.nil_append, Token.readList, if_pos rfl, List.append_nil]
      exact ⟨position + 1, rfl⟩
  | cons word list induction =>
      rw [List.mem_cons, not_or] at unclosed
      obtain ⟨after, read⟩ := @induction (position + 1) (word :: items) unclosed.2
      rw [List.cons_append, Token.readList, if_neg (Ne.symm unclosed.1), read]
      exact ⟨after, by simp⟩

/-- A membership word takes the test before it, and a list opens after it. -/
theorem read_membership {subject : Text} (role : Token.role subject = .plain) {position : Nat}
    {operator : Membership} {done : List Token} {rest : List Text} :
    Token.read position done (subject :: operator.word :: Word.opening :: rest) =
      Token.readList (position + 3) (position + 2) subject operator [] done rest := by
  have asks : Token.role operator.word = .membership operator := by
    cases operator <;> rfl
  simp [Token.read, role, asks]

/-- The normal words of an item are read as its token. -/
theorem read_normalWords (item : Item) (position : Nat) (done : List Token) (rest : List Text) :
    ∃ after, Token.read position done (item.normalWords ++ rest) =
      Token.read after (item.token :: done) rest := by
  cases item with
  | comparison left relator right =>
      have role := role_of_not_mem (Word.not_mem_reserved_of_symbol left right relator.comparison)
      rw [normalWords, List.singleton_append, Token.read, role]
      exact ⟨position + 1, rfl⟩
  | membership subject operator list =>
      have solid : ∀ word ∈ list.map Subtype.val, IsSolid word := by
        intro word member
        obtain ⟨listed, -, rfl⟩ := List.mem_map.mp member
        exact listed.2
      have unclosed : Word.closing ∉ list.map Subtype.val := by
        intro member
        cases (solid _ member).plain ')' List.mem_cons_self
      have role := role_of_not_mem subject.2.not_mem_reserved
      obtain ⟨after, ends⟩ :=
        @readList_append (position + 3) (position + 2) subject operator [] done _ unclosed rest
      refine ⟨after, ?_⟩
      simp only [normalWords, List.cons_append, List.append_assoc, List.nil_append]
      rw [read_membership role, ends, Token.membershipText, List.reverse_nil, List.nil_append,
        Token.compact_eq_listText solid]
      rfl
  | connective link =>
      have role : Token.role link.word = .connective link := by cases link <;> rfl
      rw [normalWords, List.singleton_append, Token.read, role]
      exact ⟨position + 1, rfl⟩
  | opening => exact ⟨position + 1, rfl⟩
  | closing => exact ⟨position + 1, rfl⟩

/-- The normal words of items are read as their tokens. -/
theorem read_flatMap (items : List Item) (position : Nat) (done : List Token) :
    Token.read position done (items.flatMap normalWords) =
      .ok (done.reverse ++ items.map token) := by
  induction items generalizing position done with
  | nil => simp [Token.read]
  | cons item items later =>
      obtain ⟨after, read⟩ := item.read_normalWords position done (items.flatMap normalWords)
      rw [List.flatMap_cons, read, later]
      simp

end Item

end DataCondition
