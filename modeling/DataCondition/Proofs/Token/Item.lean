import DataCondition.Proofs.Atom.Subject

/-!
# How conditions are written

A condition is written as a row of items: comparisons, membership tests, connectives and
parentheses. Each item stands for one token, and blanks may stand between the parts of items in any
number.
-/

namespace DataCondition

namespace Atom

theorem IsReference.isSolid {word : Text} (reference : IsReference word) (nonempty : word ≠ []) :
    Word.IsSolid word where
  nonempty := nonempty
  unbroken := fun char member => (reference char member).1
  plain := fun char member => (reference char member).2.1

theorem IsReference.startsSymbol {word : Text} (reference : IsReference word) :
    ∀ char ∈ word, Atom.startsSymbol char = false :=
  fun char member => (reference char member).2.2

end Atom

namespace Word

/-- The words that are no side of a comparison and no subject of a list. -/
def keywords : List Text :=
  [Connective.and.word, Connective.or.word, Membership.member.word, Membership.notMember.word,
    copula, negation]

/-- A word without blank, parenthesis or character of a symbol that is no keyword. -/
structure IsPlain (word : Text) : Prop where
  nonempty : word ≠ []
  reference : Atom.IsReference word
  unreserved : word ∉ keywords

instance (word : Text) : Decidable (IsPlain word) :=
  decidable_of_iff (word ≠ [] ∧ Atom.IsReference word ∧ word ∉ keywords)
    ⟨fun ⟨nonempty, reference, unreserved⟩ => ⟨nonempty, reference, unreserved⟩,
      fun ⟨nonempty, reference, unreserved⟩ => ⟨nonempty, reference, unreserved⟩⟩

theorem IsPlain.isSolid {word : Text} (plain : IsPlain word) : IsSolid word :=
  plain.reference.isSolid plain.nonempty

/-- The words on the sides of comparisons, and the subjects of lists. -/
abbrev Plain := {word : Text // IsPlain word}

/-- The words of lists. -/
abbrev Listed := {word : Text // IsSolid word}

theorem IsPlain.ne_of_mem {word keyword : Text} (plain : IsPlain word)
    (reserved : keyword ∈ keywords) : word ≠ keyword := by
  rintro rfl
  exact plain.unreserved reserved

theorem IsPlain.ne_member {word : Text} (plain : IsPlain word) : word ≠ Membership.member.word :=
  plain.ne_of_mem (by decide)

/--
The words of a list as they stand in the text of a test: on single spaces, with no space next to a
comma.
-/
def listText : List Text → Text
  | [] => []
  | [word] => word
  | word :: next :: rest =>
    if word.getLast? = some ',' ∨ next.head? = some ',' then word ++ listText (next :: rest)
    else word ++ ' ' :: listText (next :: rest)

end Word

/-- How a comparison is written: by its symbol, as `is`, or as `is not`. -/
inductive Relator where
  | symbol (comparison : Comparison)
  | copula
  | negatedCopula

/-- The comparison that is meant. -/
def Relator.comparison : Relator → Comparison
  | .symbol comparison => comparison
  | .copula => .equal
  | .negatedCopula => .notEqual

/-- A unit of a condition as it is written. -/
inductive Item where
  | comparison (left : Word.Plain) (relator : Relator) (right : Word.Plain)
  | membership (subject : Word.Plain) (operator : Membership) (list : List Word.Listed)
  | connective (link : Connective)
  | opening
  | closing

namespace Item

/-- A part of an item: a word, a word of a list, or a sign that needs no blank next to it. -/
inductive Part where
  | word (text : Text)
  | listed (text : Text)
  | sign (text : Text)

namespace Part

/-- The text of a part. -/
def text : Part → Text
  | .word text | .listed text | .sign text => text

/-- Whether a blank must stand between this part and another such part. -/
def isWord : Part → Bool
  | .word _ | .listed _ => true
  | .sign _ => false

end Part

/-- The parts of a relator. -/
def relatorParts : Relator → List Part
  | .symbol operator => [.sign operator.symbol]
  | .copula => [.word Word.copula]
  | .negatedCopula => [.word Word.copula, .word Word.negation]

/-- The parts of a membership word. -/
def membershipParts : Membership → List Part
  | .member => [.word Membership.member.word]
  | .notMember => [.word Word.negation, .word Membership.member.word]

/-- The parts of an item, in order. -/
def parts : Item → List Part
  | .comparison left relator right => .word left :: (relatorParts relator ++ [.word right])
  | .membership subject operator list =>
    .word subject :: (membershipParts operator ++ .sign Word.opening ::
      (list.map (fun word => .listed word) ++ [.sign Word.closing]))
  | .connective link => [.word link.word]
  | .opening => [.sign Word.opening]
  | .closing => [.sign Word.closing]

/-- The token that an item stands for. -/
def token : Item → Token
  | .comparison left relator right => .atom (left ++ relator.comparison.symbol ++ right)
  | .membership subject operator list =>
    .atom (subject ++ ' ' :: operator.word ++ ' ' :: '(' ::
      Word.listText (list.map Subtype.val) ++ [')'])
  | .connective link => .connective link
  | .opening => .opening
  | .closing => .closing

/--
Texts in which these parts are written one after the other, with blanks before and after each of
them. `afterWord` tells whether a word stands right before the text.
-/
inductive Written : Bool → List Part → Text → Prop
  | nothing {afterWord : Bool} {gap : Text} (blank : Text.IsGap gap) : Written afterWord [] gap
  | part {afterWord : Bool} {gap text : Text} {part : Part} {parts : List Part}
      (blank : Text.IsGap gap)
      (apart : afterWord → part.isWord → gap ≠ []) (later : Written part.isWord parts text) :
      Written afterWord (part :: parts) (gap ++ (part.text ++ text))

namespace Written

variable {afterWord : Bool} {part : Part} {parts : List Part} {text : Text}

/-- A part may follow at once if no two words meet. -/
theorem close (apart : (afterWord && part.isWord) = false)
    (later : Written part.isWord parts text) :
    Written afterWord (part :: parts) (part.text ++ text) :=
  @Written.part afterWord [] text part parts (by decide) (by simpa using apart) later

/-- A part may always follow after a space. -/
theorem spaced (later : Written part.isWord parts text) :
    Written afterWord (part :: parts) (' ' :: (part.text ++ text)) :=
  @Written.part afterWord [' '] text part parts (by decide) (fun _ _ => List.cons_ne_nil _ _) later

end Written

end Item

end DataCondition
