import DataCondition.Proofs.Token.ItemTokens

/-!
# Conditions as they are written

However items are written, the tokens of the condition are those of the items, and every comparison
among them is decoded as the comparison that was written.
-/

namespace DataCondition

open Word (IsPlain IsSolid)

namespace Atom

open Text (nonBlank?)

/-- A comparison of two plain words is decoded as these words and the comparison between them. -/
theorem ofText_comparison {left right : Text} (first : IsPlain left) (last : IsPlain right)
    (operator : Comparison) :
    ofText (left ++ operator.symbol ++ right) =
      .ok ⟨Attribute.ofText left, .compare operator (Scalar.ofText right)⟩ := by
  have solid : IsSolid (left ++ operator.symbol ++ right) :=
    (first.isSolid.append (Word.isSolid_symbol operator)).append last.isSolid
  have apart : right.head? ≠ some '=' := by
    intro equal
    cases last.reference.startsSymbol '=' (List.mem_of_mem_head? equal)
  rw [ofText_of_isSolid solid]
  exact ofComparison_append first.reference.startsSymbol
    (Comparison.read?_symbol_append operator apart)
    (Text.nonBlank?_of_forall first.nonempty first.isSolid.unbroken)
    (Text.nonBlank?_of_forall last.nonempty last.isSolid.unbroken)

end Atom

namespace Condition

/--
However items are written, the condition has exactly one token for each of them, in order, and each
comparison decodes to its left word, the comparison that is meant, and its right word.
-/
theorem tokens_of_written {items : List Item} {condition : Text}
    (written : Item.Written false (items.flatMap Item.parts) condition) :
    Condition.tokens condition = .ok (items.map Item.token) ∧
      ∀ (left right : Word.Plain) (relator : Relator), .comparison left relator right ∈ items →
        Atom.ofText (left ++ relator.comparison.symbol ++ right) =
          .ok ⟨Attribute.ofText left, .compare relator.comparison (Scalar.ofText right)⟩ := by
  constructor
  · rw [Condition.tokens, Item.words_of_written written, Item.read_flatMap]
    rfl
  · intro left right relator _
    exact Atom.ofText_comparison left.2 right.2 relator.comparison

/-- The five items of `a>b or(c not in (d ,e))` are its tokens, and the comparison decodes. -/
theorem tokens_of_written_items :
    Condition.tokens ['a', '>', 'b', ' ', 'o', 'r', '(', 'c', ' ', 'n', 'o', 't', ' ', 'i', 'n',
        ' ', '(', 'd', ' ', ',', 'e', ')', ')'] =
      .ok [.atom ['a', '>', 'b'], .connective .or, .opening,
        .atom ['c', ' ', 'n', 'o', 't', '_', 'i', 'n', ' ', '(', 'd', ',', 'e', ')'], .closing] ∧
      Atom.ofText ['a', '>', 'b'] =
        .ok ⟨Attribute.ofText ['a'], .compare .greater (Scalar.ofText ['b'])⟩ := by
  let a : Word.Plain := ⟨['a'], by decide⟩
  let b : Word.Plain := ⟨['b'], by decide⟩
  let c : Word.Plain := ⟨['c'], by decide⟩
  let d : Word.Listed := ⟨['d'], Word.isSolid_of_all (by decide) (by decide)⟩
  let e : Word.Listed := ⟨[',', 'e'], Word.isSolid_of_all (by decide) (by decide)⟩
  let items : List Item := [.comparison a (.symbol .greater) b, .connective .or, .opening,
    .membership c .notMember [d, e], .closing]
  have list : Item.Written false [.listed d, .listed e, .sign Word.closing, .sign Word.closing]
      ['d', ' ', ',', 'e', ')', ')'] :=
    .close rfl (.spaced (.close rfl (.close rfl (.nothing (by decide)))))
  have membership : Item.Written true (Item.opening.parts ++
      (Item.membership c .notMember [d, e]).parts ++ Item.closing.parts)
      ['(', 'c', ' ', 'n', 'o', 't', ' ', 'i', 'n', ' ', '(', 'd', ' ', ',', 'e', ')', ')'] :=
    .close rfl (.close rfl (.spaced (.spaced (.spaced list))))
  have written : Item.Written false (items.flatMap Item.parts) _ :=
    .close rfl (.close rfl (.close rfl (.spaced membership)))
  obtain ⟨tokens, decoded⟩ := tokens_of_written written
  exact ⟨tokens, decoded a b (.symbol .greater) List.mem_cons_self⟩

end Condition

end DataCondition
