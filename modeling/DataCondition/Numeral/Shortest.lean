import DataCondition.Numeral.Whole

/-!
# The fewest digits that read back

A finite double stands for every real number that rounds to it. Among the decimal numbers in that
interval the one with the fewest digits is chosen, and among those the nearest to the double.
All comparisons are exact, in whole numbers.
-/

namespace DataCondition

namespace Numeral

/-- The size `significand · 2 ^ (scale - 1074)` of a finite double. -/
structure Magnitude where
  /-- At most 53 bits. -/
  significand : Nat
  /-- The binary exponent, counted from that of the smallest double. -/
  scale : Nat
deriving DecidableEq, Repr

/-- The significant digits of a positive number `0.digits · 10 ^ point`. -/
structure Significant where
  /-- The digits, the first and the last of them not zero. -/
  digits : Text
  /-- How many places the decimal point stands after the start of the digits. -/
  point : Int
deriving DecidableEq, Repr

namespace Magnitude

/-- The smallest significand of 53 bits; it bounds the fraction that a double stores. -/
def leadingBit : Nat := 0x10000000000000

/-- The size that the exponent and fraction bits of a finite double say. -/
def ofFloat (value : Float) : Magnitude :=
  let bits := value.toBits.toNat
  let fraction := bits % leadingBit
  let biased := bits / leadingBit % 0x800
  if biased = 0 then ⟨fraction, 0⟩ else ⟨leadingBit + fraction, biased - 1⟩

/--
The decimal exponent of the first digit. Scaled by `10 ^ 400`, every positive double is above one,
so that cutting off its fraction does not change the number of its digits.
-/
def firstExponent (size : Magnitude) : Int :=
  let scaled := (size.significand * Nat.pow 10 400) <<< size.scale >>> 1074
  (ofNat scaled).length - 401

/-- `quarters` quarters of the last binary place, in units of `10 ^ grid` over `unit grid`. -/
def scaled (size : Magnitude) (grid : Int) (quarters : Nat) : Nat :=
  (quarters * Nat.pow 10 (-grid).toNat) <<< size.scale

/-- The denominator that goes with `scaled`. -/
def unit (grid : Int) : Nat := Nat.pow 10 grid.toNat <<< 1076

/-- Four times the distance in last places down to the lower end of the rounding interval. -/
def below (size : Magnitude) : Nat :=
  if size.significand = leadingBit ∧ 0 < size.scale then 1 else 2

/--
A multiple of `10 ^ grid` that rounds to the double, if there is one: of the two next to the double
the nearer, and on a tie the upper one where `tieUp` says so of the lower one. The ends of the
interval round to the double just when its significand is even.
-/
def onGrid? (tieUp : Nat → Bool) (size : Magnitude) (grid : Int) : Option Nat :=
  let centre := size.scaled grid (4 * size.significand)
  let low := size.scaled grid (4 * size.significand - size.below)
  let high := size.scaled grid (4 * size.significand + 2)
  let unit := unit grid
  let floor := centre / unit
  let closed := size.significand % 2 = 0
  let floorFits : Bool := low < floor * unit || (closed && low == floor * unit)
  let ceilingFits : Bool := (floor + 1) * unit < high || (closed && (floor + 1) * unit == high)
  let upper : Bool :=
    (2 * floor + 1) * unit < 2 * centre || (2 * centre == (2 * floor + 1) * unit && tieUp floor)
  match floorFits, ceilingFits with
  | false, false => none
  | true, false => some floor
  | false, true => some (floor + 1)
  | true, true => some (if upper then floor + 1 else floor)

/-- The digits of `coefficient · 10 ^ grid` without the zeros at their end. -/
def digitsOf (coefficient : Nat) (grid : Int) : Significant :=
  let digits := ofNat coefficient
  ⟨(digits.reverse.dropWhile (· = '0')).reverse, digits.length + grid⟩

/--
The shortest digits of a positive double. Seventeen digits tell any two doubles apart, so the
search ends at the latest there.
-/
def shortest (tieUp : Nat → Bool) (size : Magnitude) : Significant :=
  let first := size.firstExponent
  let hit := (List.range 17).findSome? fun (count : Nat) =>
    let grid := first - count
    (size.onGrid? tieUp grid).map fun coefficient => digitsOf coefficient grid
  hit.getD ⟨['0'], 1⟩

end Magnitude

end Numeral

end DataCondition
