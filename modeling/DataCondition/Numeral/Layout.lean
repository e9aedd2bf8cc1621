import DataCondition.Numeral.Shortest

/-!
# Writing doubles

Two layouts write the shortest digits of a double: the plain one never uses an exponent, the
document one turns to scientific form for very large and very small numbers.
-/

namespace DataCondition

namespace Numeral

/-- How the shortest digits of a double are set out. -/
structure Layout where
  /-- Whether a number halfway between two candidates takes the upper one, by the lower one. -/
  tieUp : Nat → Bool
  /-- What stands after the digits of a whole number. -/
  afterWhole : Text
  /-- Whether a number whose first digit has this decimal exponent is written without exponent. -/
  isPositional : Int → Bool

namespace Layout

/-- Texts show every place; a tie goes up. -/
def plain : Layout := ⟨fun _ => true, [], fun _ => true⟩

/-- Documents keep a fraction on whole numbers; a tie goes to the even candidate. -/
def document : Layout :=
  ⟨fun lower => lower % 2 == 1, ['.', '0'], fun exponent => -5 ≤ exponent && exponent ≤ 15⟩

/-- Digits around a decimal point, with zeros where they do not reach it. -/
def positional (layout : Layout) (number : Significant) : Text :=
  let size := number.digits.length
  if number.point ≤ 0 then
    '0' :: '.' :: List.replicate (-number.point).toNat '0' ++ number.digits
  else if size ≤ number.point then
    number.digits ++ List.replicate (number.point - size).toNat '0' ++ layout.afterWhole
  else
    number.digits.take number.point.toNat ++ '.' :: number.digits.drop number.point.toNat

/-- One digit before the point, if any follow it, and a signed exponent. -/
def scientific (number : Significant) : Text :=
  let exponent := number.point - 1
  let fraction := if number.digits.tail.isEmpty then [] else '.' :: number.digits.tail
  number.digits.take 1 ++ fraction ++
    'e' :: (if exponent < 0 then '-' else '+') :: ofNat exponent.natAbs

/-- The text of a finite magnitude. -/
def magnitude (layout : Layout) (size : Magnitude) : Text :=
  if size.significand = 0 then '0' :: layout.afterWhole else
  let number := size.shortest layout.tieUp
  if layout.isPositional (number.point - 1) then layout.positional number else scientific number

/-- A double with its sign; infinities and the missing number have names. -/
def text (layout : Layout) (value : Float) : Text :=
  let negative : Bool := 0x8000000000000000 ≤ value.toBits
  if value.isNaN then ['N', 'a', 'N'] else
  let body := if value.isInf then ['i', 'n', 'f'] else layout.magnitude (.ofFloat value)
  if negative then '-' :: body else body

end Layout

end Numeral

end DataCondition
