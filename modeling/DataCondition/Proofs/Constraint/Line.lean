import DataCondition.Constraint.Basic
import DataCondition.Proofs.Text.Cut
import DataCondition.Proofs.Text.Parts
import Mathlib.Data.List.Basic

/-!
# Constraints and their lines

A line is read as a constraint without blanks around its texts and without marks in them. Every such
constraint has a line, on which absent conditions at the end may be left out.
-/

namespace DataCondition

namespace Constraint

open Text (IsCore IsGap nonBlank? trim)

/-- The conditions in the order in which they stand on a line. -/
def conditions (constraint : Constraint) : List (Option Text) :=
  [constraint.activation, constraint.correlation, constraint.time]

/-- A constraint whose texts are cores and hold none of the marks that would end them on a line. -/
structure IsClean (constraint : Constraint) : Prop where
  template : IsCore constraint.template ∧ '[' ∉ constraint.template ∧ '|' ∉ constraint.template
  activities : ∀ activity ∈ constraint.activities,
    IsCore activity ∧ ',' ∉ activity ∧ '|' ∉ activity
  conditions : ∀ condition, some condition ∈ constraint.conditions →
    IsCore condition ∧ '|' ∉ condition

/-- The activities of a constraint as they are written. -/
def row (constraint : Constraint) : Text := [',', ' '].intercalate constraint.activities

/-- The template of a constraint and its activities in brackets. -/
def head (constraint : Constraint) : Text :=
  constraint.template ++ '[' :: (constraint.row ++ [']'])

/-- What is written for a condition. -/
def segment (condition : Option Text) : Text := condition.getD []

/-- The line of a constraint with as many of its conditions as are counted. -/
def line (constraint : Constraint) (count : Nat) : Text :=
  [' ', '|'].intercalate (constraint.head :: (constraint.conditions.take count).map segment)

theorem head?_eq_some_iff {text before after : Text} :
    head? text = some (before, after) ↔
      ∃ opened, trim text = opened ++ [']'] ∧ Text.cut ['['] opened = some (before, after) := by
  simp only [head?, bind, Option.bind_eq_some_iff, Text.dropClosing?_eq_some_iff]

theorem head?_trim (text : Text) : head? (trim text) = head? text := by
  rw [head?, head?, Text.trim_trim]

theorem segments?_map_trim (parts : List Text) : segments? (parts.map trim) = segments? parts := by
  rcases parts with _ | ⟨_, _ | ⟨_, _ | ⟨_, _ | ⟨_, _⟩⟩⟩⟩ <;> simp [segments?, Text.nonBlank?_trim]

/-- The conditions are what is left of the segments, and absent after the last segment. -/
theorem segments?_eq_some_iff {parts : List Text} {activation correlation time : Option Text} :
    segments? parts = some (activation, correlation, time) ↔
      ∃ count, parts.map nonBlank? ++ List.replicate count none =
        [activation, correlation, time] := by
  constructor
  · intro read
    unfold segments? at read
    split at read
    next => exact ⟨3, by cases read; rfl⟩
    next => exact ⟨2, by cases read; rfl⟩
    next => exact ⟨1, by cases read; rfl⟩
    next => exact ⟨0, by cases read; rfl⟩
    next => cases read
  · rintro ⟨count, shape⟩
    have length : parts.length + count = 3 := by simpa using congrArg List.length shape
    obtain rfl : count = 3 - parts.length := by omega
    rcases parts with _ | ⟨_, _ | ⟨_, _ | ⟨_, _ | ⟨_, _⟩⟩⟩⟩
    all_goals cases shape
    all_goals rfl

theorem filterMap_nonBlank?_map_trim (parts : List Text) :
    (parts.map trim).filterMap nonBlank? = parts.filterMap nonBlank? := by
  rw [List.filterMap_map]
  exact List.filterMap_congr fun part _ => Text.nonBlank?_trim part

theorem mem_activitiesOf {text activity : Text} :
    activity ∈ activitiesOf text ↔ ∃ part ∈ text.splitOn ',', nonBlank? part = some activity :=
  List.mem_filterMap

/-- A line is read as a constraint if its first part is the head and the others are conditions. -/
theorem ofLine_eq_ok_iff {line first : Text} {rest : List Text}
    (parts : line.splitOn '|' = first :: rest) {constraint : Constraint} :
    ofLine line = .ok constraint ↔
      ∃ name inner, head? first = some (name, inner) ∧
        nonBlank? name = some constraint.template ∧
        activitiesOf inner = constraint.activities ∧
        segments? rest =
          some (constraint.activation, constraint.correlation, constraint.time) := by
  rw [ofLine, parts]
  dsimp only [List.headD_cons, List.tail_cons]
  constructor
  · intro read
    split at read
    next => cases read
    next name inner heading =>
      split at read
      next => cases read
      next template named =>
        split at read
        next => cases read
        next activation correlation time segments =>
          obtain rfl := Except.ok.inj read
          exact ⟨name, inner, heading, named, rfl, segments⟩
  · rintro ⟨name, inner, heading, named, activities, segments⟩
    simp only [heading, named, segments, activities]

section Clean

variable {constraint : Constraint} (clean : constraint.IsClean)

include clean

theorem activitiesOf_row : activitiesOf constraint.row = constraint.activities := by
  have kept : constraint.activities.filterMap nonBlank? = constraint.activities := by
    rw [List.filterMap_eq_map_iff_forall_eq_some.mpr fun activity isActivity =>
      (clean.activities activity isActivity).1.nonBlank?_eq, List.map_id']
  rw [activitiesOf, row]
  by_cases none : constraint.activities = []
  · rw [none]
    rfl
  · have parts := Text.map_trim_splitOn [] [' '] (by decide) (by decide) none
      fun activity isActivity => (clean.activities activity isActivity).2.1
    rw [List.nil_append] at parts
    rw [← filterMap_nonBlank?_map_trim, parts, filterMap_nonBlank?_map_trim, kept]

theorem isTrimmed_head : Text.IsTrimmed constraint.head where
  first := by
    obtain ⟨char, rest, shape⟩ := List.exists_cons_of_ne_nil clean.template.1.nonempty
    have first := clean.template.1.first
    rw [shape] at first
    rw [head, shape]
    exact first
  last := by
    rw [head, ← List.cons_append, ← List.append_assoc, List.getLast?_concat]
    rintro char ⟨⟩
    rfl

theorem head?_head : head? constraint.head = some (constraint.template, constraint.row) := by
  refine head?_eq_some_iff.mpr ⟨constraint.template ++ '[' :: constraint.row, ?_, ?_⟩
  · rw [(isTrimmed_head clean).trim_eq, head]
    simp
  · exact Text.cut_append_cons_of_not_mem clean.template.2.1 [] constraint.row

theorem bar_not_mem_head : '|' ∉ constraint.head := by
  have outside : ∀ char ∈ constraint.row, char ≠ '|' := by
    refine (Text.forall_mem_intercalate (by simp)).mpr ?_
    rintro activity isActivity char inside rfl
    exact (clean.activities activity isActivity).2.2 inside
  have outside : '|' ∉ constraint.row := fun inside => outside _ inside rfl
  simp [head, clean.template.2.2, outside]

theorem bar_not_mem_segment {condition : Option Text}
    (isCondition : condition ∈ constraint.conditions) : '|' ∉ segment condition := by
  cases condition with
  | none => exact List.not_mem_nil
  | some text => exact (clean.conditions text isCondition).2

theorem nonBlank?_segment {condition : Option Text}
    (isCondition : condition ∈ constraint.conditions) :
    nonBlank? (segment condition) = condition := by
  cases condition with
  | none => rfl
  | some text => exact (clean.conditions text isCondition).1.nonBlank?_eq

theorem segments?_take {count : Nat}
    (absent : ∀ condition ∈ constraint.conditions.drop count, condition = none) :
    segments? ((constraint.conditions.take count).map segment) =
      some (constraint.activation, constraint.correlation, constraint.time) := by
  have kept : ((constraint.conditions.take count).map segment).map nonBlank? =
      constraint.conditions.take count := by
    rw [List.map_map]
    calc (constraint.conditions.take count).map (nonBlank? ∘ segment)
      _ = (constraint.conditions.take count).map id :=
        List.map_congr_left fun condition isCondition =>
          nonBlank?_segment clean (List.mem_of_mem_take isCondition)
      _ = constraint.conditions.take count := List.map_id _
  refine segments?_eq_some_iff.mpr ⟨(constraint.conditions.drop count).length, ?_⟩
  rw [kept, ← List.eq_replicate_of_mem absent, List.take_append_drop, conditions]

/-- The line of a clean constraint is read as the constraint. -/
theorem ofLine_line {count : Nat}
    (absent : ∀ condition ∈ constraint.conditions.drop count, condition = none) :
    ofLine (constraint.line count) = .ok constraint := by
  have apart : ∀ part ∈ constraint.head :: (constraint.conditions.take count).map segment,
      '|' ∉ part := by
    rw [List.forall_mem_cons, List.forall_mem_map]
    exact ⟨bar_not_mem_head clean, fun condition isCondition =>
      bar_not_mem_segment clean (List.mem_of_mem_take isCondition)⟩
  have trimmed := Text.map_trim_splitOn [' '] [] (by decide) (by decide) (by simp) apart
  obtain ⟨first, rest, parts, sameHead, sameRest⟩ := List.map_eq_cons_iff.mp trimmed
  refine (ofLine_eq_ok_iff parts).mpr ⟨constraint.template, constraint.row, ?_,
    clean.template.1.nonBlank?_eq, activitiesOf_row clean, ?_⟩
  · rw [← head?_trim, sameHead, head?_trim, head?_head clean]
  · rw [← segments?_map_trim, sameRest, segments?_map_trim, segments?_take clean absent]

end Clean

/-- What is read from a line is clean. -/
theorem isClean_of_ofLine {line : Text} {constraint : Constraint}
    (read : ofLine line = .ok constraint) : constraint.IsClean := by
  obtain ⟨first, rest, parts⟩ := List.exists_cons_of_ne_nil (List.splitOn_ne_nil '|' line)
  obtain ⟨name, inner, heading, named, activities, segments⟩ := (ofLine_eq_ok_iff parts).mp read
  obtain ⟨opened, shape, found⟩ := head?_eq_some_iff.mp heading
  have apart : ∀ part ∈ first :: rest, '|' ∉ part := by
    rw [← parts]
    exact fun part isPart => (Text.infix_of_mem_splitOn isPart).1
  rw [List.forall_mem_cons] at apart
  -- the head has no bar, so neither have its parts
  have outside : '|' ∉ name ++ ['['] ++ inner ++ [']'] := by
    rw [← Text.append_of_cut found, ← shape]
    exact fun inside => apart.1 (Text.mem_of_mem_trim inside)
  simp only [List.mem_append, not_or] at outside
  constructor
  case template =>
    exact ⟨Text.isCore_iff.mpr ⟨name, named⟩,
      Text.not_mem_of_nonBlank? named (Text.not_mem_of_cut found),
      Text.not_mem_of_nonBlank? named outside.1.1.1⟩
  case activities =>
    intro activity isActivity
    rw [← activities] at isActivity
    obtain ⟨part, isPart, left⟩ := mem_activitiesOf.mp isActivity
    obtain ⟨commaless, inside⟩ := Text.infix_of_mem_splitOn isPart
    exact ⟨Text.isCore_iff.mpr ⟨part, left⟩, Text.not_mem_of_nonBlank? left commaless,
      Text.not_mem_of_nonBlank? left fun bar => outside.1.2 (inside.subset bar)⟩
  case conditions =>
    intro condition isCondition
    obtain ⟨count, same⟩ := segments?_eq_some_iff.mp segments
    rw [conditions, ← same] at isCondition
    obtain ⟨part, isPart, left⟩ : ∃ part ∈ rest, nonBlank? part = some condition := by
      simpa using isCondition
    exact ⟨Text.isCore_iff.mpr ⟨part, left⟩, Text.not_mem_of_nonBlank? left (apart.2 part isPart)⟩

/--
A clean constraint is read from its line, on which absent conditions at the end may be left out, and
only clean constraints are read from any line.
-/
theorem ofLine_image (constraint : Constraint) :
    (constraint.IsClean →
      ∀ count, (∀ condition ∈ constraint.conditions.drop count, condition = none) →
        ofLine (constraint.line count) = .ok constraint) ∧
      ∀ line, ofLine line = .ok constraint → constraint.IsClean :=
  ⟨fun clean _ absent => ofLine_line clean absent, fun _ read => isClean_of_ofLine read⟩

/-- Activities may hold brackets, and conditions commas. -/
example : ofLine " Response[a [1], b]| x in (1, 2) |".toList =
    .ok ⟨"Response".toList, ["a [1]".toList, "b".toList], "x in (1, 2)".toList, none, none⟩ := by
  decide +kernel

end Constraint

end DataCondition
