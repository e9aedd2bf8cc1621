import DataCondition.Error

/-!
# Numbering nodes

All stages that make nodes draw their numbers from one counter of 32 bits. Nothing guards its end:
behind the largest number it goes on at zero.
-/

namespace DataCondition

/-- A state of the counter stands for the number that it gives out next. -/
instance Numbering.coeToNumber : Coe UInt32 Nat := ⟨UInt32.toNat⟩

/-- A number of steps is added to a state of the counter in 32 bits. -/
instance Numbering.coeOfSteps : Coe Nat UInt32 := ⟨UInt32.ofNat⟩

/-- A computation that may fail and that draws numbers from a counter of 32 bits. -/
abbrev Numbering := StateT UInt32 (Except Error)

/-- The next number of the counter. -/
def Numbering.fresh : Numbering Nat :=
  fun next => .ok (next, next + 1)

end DataCondition
