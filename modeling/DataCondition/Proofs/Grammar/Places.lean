import Mathlib.Data.List.Forall2
import DataCondition.Condition
import DataCondition.Proofs.Grammar.Disjuncts
import DataCondition.Proofs.Tree.DisjunctNumbers
import DataCondition.Tree.Walk

/-!
# Which tokens of a derivation stay

Every token but a closing parenthesis gets a number. A test stays as a node with its number, and so
does a parenthesis that opens an operand of a conjunction; connectives and other parentheses do not.
-/

namespace DataCondition

namespace Token

open DataCondition.Numbering (Drawn)

/-- The tokens that get numbers, in order: all but the closing parentheses. -/
def placed (tokens : List Token) : List Token := tokens.filter (· ≠ .closing)

/-- The number of the next token, when `front` has been numbered from `next` on. -/
def numberAfter (next : UInt32) (front : List Token) : UInt32 := next + (placed front).length

/-- All places get numbers from `next` on, and those of tokens that stay are listed. -/
def numbered (next : UInt32) : List (Option Token) → List (Nat × Token)
  | [] => []
  | none :: rest => numbered (next + 1) rest
  | some token :: rest => (next, token) :: numbered (next + 1) rest

/-- At the place of a token stands that token, or nothing if it is no test. -/
def Stays (place : Option Token) (token : Token) : Prop :=
  place = some token ∨ place = none ∧ token.atom? = none

theorem numberAfter_nil (next : UInt32) : numberAfter next [] = next := UInt32.add_zero next

theorem numberAfter_append (next : UInt32) (front later : List Token) :
    numberAfter next (front ++ later) = numberAfter next front + (placed later).length := by
  rw [numberAfter, placed, List.filter_append, List.length_append, ← Numbering.add_add]
  rfl

theorem numberAfter_concat (next : UInt32) (front : List Token) (token : Token)
    (other : token ≠ .closing) :
    numberAfter next (front ++ [token]) = numberAfter next front + 1 := by
  rw [numberAfter_append, placed, List.filter_cons_of_pos (by simpa using other)]
  rfl

@[simp]
theorem numbered_some (next : UInt32) (token : Token) (rest : List (Option Token)) :
    numbered next (some token :: rest) = ((next : Nat), token) :: numbered (next + 1) rest := rfl

@[simp]
theorem numbered_none (next : UInt32) (rest : List (Option Token)) :
    numbered next (none :: rest) = numbered (next + 1) rest := rfl

@[simp]
theorem numbered_nil (next : UInt32) : numbered next [] = [] := rfl

theorem numbered_append (next : UInt32) (left right : List (Option Token)) :
    numbered next (left ++ right) =
      numbered next left ++ numbered (next + left.length) right := by
  induction left generalizing next with
  | nil => simp
  | cons place rest induction =>
      have onward := induction (next + 1)
      rw [Numbering.add_one_add, Nat.add_comm] at onward
      cases place with
      | none => exact onward
      | some token => exact congrArg _ onward

/-- Every place draws a number, and the listed numbers are among them. -/
theorem exists_drawn_numbered (next : UInt32) (places : List (Option Token)) :
    ∃ numbers, Drawn next (next + places.length) numbers ∧ numbers.length = places.length ∧
      ((numbered next places).map Prod.fst).Sublist numbers := by
  induction places generalizing next with
  | nil =>
      refine ⟨[], ?_, rfl, .refl _⟩
      rw [List.length_nil, Numbering.add_zero]
      exact .nil next
  | cons place rest induction =>
      obtain ⟨numbers, drawn, length, listed⟩ := induction (next + 1)
      rw [Numbering.add_one_add, Nat.add_comm] at drawn
      refine ⟨next :: numbers, .cons drawn, congrArg (· + 1) length, ?_⟩
      cases place with
      | none => exact listed.cons _
      | some token => exact listed.cons_cons _

theorem stays_connective (link : Connective) : Stays none (.connective link) := .inr ⟨rfl, rfl⟩

theorem stays_opening : Stays none .opening := .inr ⟨rfl, rfl⟩

end Token

namespace Grammar

open Token (placed numbered numbered_append Stays stays_connective stays_opening)
open Node (sizeAll keptSources keptSourcesAll keptSourcesAll_cons numberedAll numberedAll_append)

mutual

/-- The places of a disjunction's tokens, with those tokens that stay. -/
def Disjunction.places : Disjunction → List (Option Token)
  | .last conjunction => conjunction.places
  | .or first later => first.places ++ none :: later.places

/-- The places of a conjunction; where it is a lone group, its parentheses go. -/
def Conjunction.places : Conjunction → List (Option Token)
  | .last (.test text) => [some (.atom text)]
  | .last (.group inner) => none :: inner.places
  | .and first later => first.places ++ none :: later.operandPlaces

/-- The places of the operands of a conjunction. -/
def Conjunction.operandPlaces : Conjunction → List (Option Token)
  | .last term => term.places
  | .and first later => first.places ++ none :: later.operandPlaces

/-- The places of an operand, whose parentheses stay. -/
def Term.places : Term → List (Option Token)
  | .test text => [some (.atom text)]
  | .group inner => some .opening :: inner.places

end

mutual

/-- There is a place for every token of a disjunction that gets a number. -/
theorem Disjunction.stays_places : ∀ disjunction : Disjunction,
    List.Forall₂ Stays disjunction.places (placed disjunction.tokens)
  | .last conjunction => Conjunction.stays_places conjunction
  | .or first later => by
      have back := (Disjunction.stays_places later).cons (stays_connective .or)
      simpa [Disjunction.tokens, Disjunction.places, placed] using
        List.rel_append (Conjunction.stays_places first) back

theorem Conjunction.stays_places : ∀ conjunction : Conjunction,
    List.Forall₂ Stays conjunction.places (placed conjunction.tokens)
  | .last (.test text) => .cons (.inl rfl) .nil
  | .last (.group inner) => by
      have inside := (Disjunction.stays_places inner).cons stays_opening
      simpa [Conjunction.tokens, Conjunction.places, Term.tokens, placed] using inside
  | .and first later => by
      have back := (Conjunction.stays_operandPlaces later).cons (stays_connective .and)
      simpa [Conjunction.tokens, Conjunction.places, placed] using
        List.rel_append (Term.stays_places first) back

theorem Conjunction.stays_operandPlaces : ∀ conjunction : Conjunction,
    List.Forall₂ Stays conjunction.operandPlaces (placed conjunction.tokens)
  | .last term => Term.stays_places term
  | .and first later => by
      have back := (Conjunction.stays_operandPlaces later).cons (stays_connective .and)
      simpa [Conjunction.tokens, Conjunction.operandPlaces, placed] using
        List.rel_append (Term.stays_places first) back

theorem Term.stays_places : ∀ term : Term,
    List.Forall₂ Stays term.places (placed term.tokens)
  | .test text => .cons (.inl rfl) .nil
  | .group inner => by
      have inside : List.Forall₂ Stays (some .opening :: inner.places)
          (.opening :: placed inner.tokens) := (Disjunction.stays_places inner).cons (.inl rfl)
      simpa [Term.tokens, Term.places, placed] using inside

end

mutual

theorem Disjunction.length_places : ∀ disjunction : Disjunction,
    disjunction.places.length = sizeAll disjunction.nested
  | .last conjunction => Conjunction.length_places conjunction
  | .or first later => by
      have link : (linkNode .or).size = 0 := rfl
      simp [Disjunction.places, Disjunction.nested, Walk.sizeAll_append, sizeAll, link,
        Conjunction.length_places first, Disjunction.length_places later]
      omega

theorem Conjunction.length_places : ∀ conjunction : Conjunction,
    conjunction.places.length = sizeAll conjunction.nested
  | .last (.test text) => rfl
  | .last (.group inner) => by
      simp [Conjunction.places, Conjunction.nested, sizeAll, Term.nested, Node.bare, Node.size,
        Disjunction.length_places inner, Nat.add_comm]
  | .and first later => by
      have link : (linkNode .and).size = 0 := rfl
      simp [Conjunction.places, Conjunction.nested, sizeAll, link, Term.length_places first,
        Conjunction.length_operandPlaces later]
      omega

theorem Conjunction.length_operandPlaces : ∀ conjunction : Conjunction,
    conjunction.operandPlaces.length = sizeAll conjunction.nested
  | .last term => by
      simp [Conjunction.operandPlaces, Conjunction.nested, sizeAll, Term.length_places term]
  | .and first later => by
      have link : (linkNode .and).size = 0 := rfl
      simp [Conjunction.operandPlaces, Conjunction.nested, sizeAll, link, Term.length_places first,
        Conjunction.length_operandPlaces later]
      omega

theorem Term.length_places : ∀ term : Term, term.places.length = 1 + term.nested.size
  | .test text => rfl
  | .group inner => by
      simp [Term.places, Term.nested, Node.bare, Node.size, Disjunction.length_places inner,
        Nat.add_comm]

end

theorem numberedAll_link (owner : Nat) (next : UInt32) (link : Connective) (later : List Node) :
    numberedAll owner next (linkNode link :: later) =
      ⟨next, some owner, .connective link, []⟩ :: numberedAll owner (next + 1) later := by
  simp [numberedAll, linkNode, Node.bare, Node.numbered, Node.size, sizeAll]

theorem keptSourcesAll_link (starts : Bool) (owner : Nat) (next : UInt32) (link : Connective)
    (later : List Node) :
    keptSourcesAll starts (⟨next, some owner, .connective link, []⟩ :: later) =
      keptSourcesAll (link = .or) later := by
  simp [keptSourcesAll_cons, keptSources, Node.isConnective]

theorem Term.isConnective_numbered (term : Term) (owner : Nat) (next : UInt32) (link : Connective) :
    (term.nested.numbered owner next).isConnective link = false := by
  cases term <;> rfl

/-- A term that is not a whole run stays. -/
theorem keptSourcesAll_operand (term : Term) (owner : Nat) (next : UInt32) (starts : Bool)
    {rest : List Node} (within : starts → Node.endsRun rest = false) :
    keptSourcesAll starts (term.nested.numbered owner next :: rest) =
      keptSources (term.nested.numbered owner next) ++ keptSourcesAll false rest := by
  have apart : ¬(starts ∧ (term.nested.numbered owner next).kind = .group ∧
      Node.endsRun rest) := by
    rintro ⟨first, -, ends⟩
    simp [within first] at ends
  rw [keptSourcesAll_cons, if_neg apart, term.isConnective_numbered]

/-- The first operand of several stays, and the others are no start of a run. -/
theorem keptSourcesAll_and (first : Term) (later : Conjunction) (owner : Nat) (next : UInt32)
    (starts : Bool) (rest : List Node) :
    keptSourcesAll starts (numberedAll owner next (Conjunction.and first later).nested ++ rest) =
      keptSources (first.nested.numbered owner next) ++
        keptSourcesAll false
          (numberedAll owner (next + (1 + first.nested.size : Nat) + 1) later.nested ++ rest) := by
  rw [Conjunction.nested, numberedAll, numberedAll_link, List.cons_append, List.cons_append,
    keptSourcesAll_operand first owner next starts fun _ => rfl, keptSourcesAll_link,
    ← Numbering.add_one_add]
  rfl

mutual

/-- The sources that stay in a derivation's tree of parentheses are those with a place. -/
theorem Disjunction.keptSourcesAll_nested : ∀ (disjunction : Disjunction) (owner : Nat)
    (next : UInt32),
    keptSourcesAll true (numberedAll owner next disjunction.nested) =
      numbered next disjunction.places
  | .last conjunction, owner, next => by
      have alone := @Conjunction.keptSourcesAll_nested conjunction owner next [] rfl
      simpa [Disjunction.nested, Disjunction.places, keptSourcesAll] using alone
  | .or first later, owner, next => by
      rw [Disjunction.nested, numberedAll_append, numberedAll_link,
        Conjunction.keptSourcesAll_nested first owner next rfl, keptSourcesAll_link,
        Disjunction.places, numbered_append, first.length_places]
      exact congrArg _ (Disjunction.keptSourcesAll_nested later owner _)

theorem Conjunction.keptSourcesAll_nested : ∀ (conjunction : Conjunction) (owner : Nat)
    (next : UInt32) {rest : List Node}, Node.endsRun rest →
    keptSourcesAll true (numberedAll owner next conjunction.nested ++ rest) =
      numbered next conjunction.places ++ keptSourcesAll false rest
  | .last (.test text), owner, next, rest, _ => by
      simp [Conjunction.nested, Conjunction.places, Term.nested, testNode, Node.bare, numberedAll,
        Node.numbered, keptSourcesAll_cons, keptSources, Node.isConnective]
  | .last (.group inner), owner, next, rest, ends => by
      have inside := Disjunction.keptSourcesAll_nested inner next (next + 1)
      simp [Conjunction.nested, Conjunction.places, Term.nested, Node.bare, numberedAll,
        Node.numbered, keptSourcesAll_cons, Node.isConnective, ends, inside]
  | .and first later, owner, next, rest, _ => by
      rw [keptSourcesAll_and, Term.keptSources_nested first owner next, Conjunction.places,
        numbered_append, first.length_places, List.append_assoc]
      exact congrArg _ (Conjunction.keptSourcesAll_operands later owner _ rest)

theorem Conjunction.keptSourcesAll_operands : ∀ (conjunction : Conjunction) (owner : Nat)
    (next : UInt32) (rest : List Node),
    keptSourcesAll false (numberedAll owner next conjunction.nested ++ rest) =
      numbered next conjunction.operandPlaces ++ keptSourcesAll false rest
  | .last term, owner, next, rest => by
      rw [Conjunction.nested, numberedAll, numberedAll, List.singleton_append,
        keptSourcesAll_operand term owner next false nofun, Term.keptSources_nested term owner next]
      rfl
  | .and first later, owner, next, rest => by
      rw [keptSourcesAll_and, Term.keptSources_nested first owner next, Conjunction.operandPlaces,
        numbered_append, first.length_places, List.append_assoc]
      exact congrArg _ (Conjunction.keptSourcesAll_operands later owner _ rest)

theorem Term.keptSources_nested : ∀ (term : Term) (owner : Nat) (next : UInt32),
    keptSources (term.nested.numbered owner next) = numbered next term.places
  | .test text, owner, next => by
      simp [Term.nested, Term.places, testNode, Node.bare, Node.numbered, keptSources]
  | .group inner, owner, next => by
      have inside := Disjunction.keptSourcesAll_nested inner next (next + 1)
      simp [Term.nested, Term.places, Node.bare, Node.numbered, keptSources, inside]

end

end Grammar

end DataCondition
