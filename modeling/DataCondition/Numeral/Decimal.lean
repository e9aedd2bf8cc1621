import DataCondition.Numeral.Whole

/-!
# Decimal numerals with a point and an exponent

A decimal numeral denotes `± digits · 10 ^ exponent` exactly; its value is the nearest
double-precision number.
-/

namespace DataCondition

namespace Numeral

/-- The exact number `± digits · 10 ^ exponent`. -/
structure Decimal where
  /-- Whether a minus sign stands before it. -/
  negative : Bool
  /-- All digits, those after the point included, as one whole number. -/
  digits : Nat
  /-- The power of ten that the digits are multiplied by. -/
  exponent : Int
deriving DecidableEq, Repr

namespace Decimal

/-- The exponent part: nothing, or `e` and a whole number. -/
def exponent? : Text → Option Int
  | [] => some 0
  | 'e' :: digits => integer? digits
  | 'E' :: digits => integer? digits
  | _ => none

/-- Digits with at most one point among or beside them, then the exponent part. -/
def unsigned? (negative : Bool) (text : Text) : Option Decimal := do
  let whole := text.takeWhile Char.isDigit
  let tail := text.dropWhile Char.isDigit
  let afterPoint := if tail.head? = some '.' then tail.tail else []
  let fraction := afterPoint.takeWhile Char.isDigit
  let scale := if tail.head? = some '.' then afterPoint.dropWhile Char.isDigit else tail
  if whole.isEmpty && fraction.isEmpty then none else
  let exponent ← exponent? scale
  some ⟨negative, Nat.ofDigitChars 10 (whole ++ fraction) 0, exponent - fraction.length⟩

/-- An optional sign, then an unsigned decimal numeral. -/
def ofText? : Text → Option Decimal
  | '+' :: text => unsigned? false text
  | '-' :: text => unsigned? true text
  | text => unsigned? false text

/-- Positive infinity. -/
def infinity : Float := Float.ofBits 0x7FF0000000000000

/--
The nearest double to the magnitude. From `10 ^ 309` on every number rounds to infinity and below
`10 ^ -330` to zero, so that only moderate powers of ten are ever computed.
-/
def magnitude (decimal : Decimal) : Float :=
  if decimal.digits = 0 then 0 else
  let point := (ofNat decimal.digits).length + decimal.exponent
  if 310 ≤ point then infinity
  else if point ≤ -330 then 0
  else Float.ofScientific decimal.digits (decimal.exponent < 0) decimal.exponent.natAbs

/-- The nearest double, with the sign of the numeral even at zero. -/
def toFloat (decimal : Decimal) : Float :=
  if decimal.negative then -decimal.magnitude else decimal.magnitude

end Decimal

end Numeral

end DataCondition
