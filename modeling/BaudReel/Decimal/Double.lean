import BaudReel.Decimal.Shortest
import BaudReel.Word
/-!
# Doubles as numerals

Documents write a double with the fewest digits that read back as it, always
with a point, and with an exponent for numbers below `10^-5` and from `10^16`
on (`ofFloat?`).

Reading takes as many leading digits as fit a 64-bit word and scales them by a
power of ten in floating point (`toFloat?`).  A result beyond the largest
double is no number; one below the smallest is zero.
-/

namespace BaudReel.Decimal.Numeral

/-- A decimal as documents write it. -/
def ofDigits (negative : Bool) (d : Digits) : Numeral :=
  if -5 ≤ d.exponent ∧ d.exponent < 16 then
    let (front, behind) := d.positional
    { negative
      whole := valueOf front
      fraction := if behind.isEmpty then [0] else behind }
  else
    { negative
      whole := d.digits.headD 0
      fraction := d.digits.tail
      exponent := some d.exponent }

/-- A finite double as documents write it: the fewest digits that read back as
the same double, a tie going to the even digit. -/
def ofFloat? (x : Float) : Option Numeral :=
  (Decimal.ofFloat? x .toEven).map fun (negative, d) => ofDigits negative d

/-- Appends digits to a number for as long as the result fits a 64-bit word.
Gives the number and how many digits were left over. -/
def absorb (n : Nat) : List Nat → Nat × Nat
  | [] => (n, 0)
  | d :: rest =>
    if 10 * n + d ≤ Word.max64 then absorb (10 * n + d) rest else (n, rest.length + 1)

/-- The power of ten as a double, for exponents up to 308. -/
def powerOfTen (k : Nat) : Float :=
  Float.ofScientific 1 false k

/-- Scales a double by a power of ten, in steps that the table of powers
allows.  Two steps down already reach zero. -/
def scale (steps : Nat) (x : Float) (k : Int) : Option Float :=
  if k.natAbs ≤ 308 then
    if 0 ≤ k then
      let y := x * powerOfTen k.natAbs
      if y.isInf then none else some y
    else some (x / powerOfTen k.natAbs)
  else if x == 0 then some x
  else if 0 ≤ k then none
  else
    match steps with
    | 0 => some x
    | steps + 1 => scale steps (x / powerOfTen 308) (k + 308)

/-- The double a numeral is read as; none if it is too large. -/
def toFloat? (n : Numeral) : Option Float :=
  let (front, dropped) := absorb 0 (Digits.ofNat n.whole)
  let (significand, unused) := absorb front n.fraction
  let used := n.fraction.length - unused
  let k : Int := (dropped : Int) - used + n.exponent.getD 0
  (scale 3 significand.toUInt64.toFloat k).map fun x => if n.negative then -x else x

end BaudReel.Decimal.Numeral
