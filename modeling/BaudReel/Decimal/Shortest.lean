import BaudReel.Decimal.Numeral
/-!
# Shortest decimals

A finite double stands for every real number that rounds to it.  Among the
decimals in that interval, this file finds one with the fewest digits, and
among those the one nearest to the double itself.

Everything is exact arithmetic on natural numbers.  A double is `m · 2^q`; its
interval reaches halfway to its neighbours, ends included exactly when `m` is
even.  On the grid of multiples of `10^k` only the two neighbours of the value
need to be tried: if any point of the grid lies in the interval, one of them
does.  The first grid with a hit, from coarse to fine, gives the fewest
digits.

Running text never writes an exponent, and no point for whole numbers
(`plainText`).
-/

namespace BaudReel.Decimal

/-- Which of two equally near decimals to take. -/
inductive Tie where
  /-- The one with an even last digit. -/
  | toEven
  /-- The larger one. -/
  | up
deriving DecidableEq, Inhabited

/-- The reals that round to a positive double, as numerators over a common
denominator. -/
structure Interval where
  low : Nat
  value : Nat
  high : Nat
  denominator : Nat
  /-- Whether the two ends belong to the interval. -/
  closed : Bool
deriving DecidableEq, Inhabited

namespace Interval

/-- The interval of `mantissa · 2^exponent`.  The neighbour below a power of
two is only half as far away, unless the double is subnormal or the smallest
normal one. -/
def ofBinary (mantissa : Nat) (exponent : Int) (narrowBelow : Bool) : Interval :=
  let shift := exponent - 2
  let scale := Nat.pow 2 shift.toNat
  { low := (4 * mantissa - if narrowBelow then 1 else 2) * scale
    value := 4 * mantissa * scale
    high := (4 * mantissa + 2) * scale
    denominator := Nat.pow 2 (-shift).toNat
    closed := mantissa % 2 == 0 }

/-- The interval of a positive finite double given by its 52 fraction bits and
11 exponent bits. -/
def ofFields (fraction biased : Nat) : Interval :=
  if biased = 0 then ofBinary fraction (-1074) false
  else ofBinary (0x10000000000000 + fraction) (biased - 1075) (fraction == 0 && 1 < biased)

/-- The same interval in units of `10^k`. -/
def inUnits (i : Interval) (k : Int) : Interval :=
  let up := Nat.pow 10 (-k).toNat
  { i with
    low := i.low * up
    value := i.value * up
    high := i.high * up
    denominator := i.denominator * Nat.pow 10 k.toNat }

/-- Whether the whole number `d` lies in the interval. -/
def contains (i : Interval) (d : Nat) : Bool :=
  let n := d * i.denominator
  if i.closed then i.low ≤ n && n ≤ i.high else i.low < n && n < i.high

/-- The whole number of the interval nearest to its value, if it has one. -/
def nearest? (i : Interval) (tie : Tie) : Option Nat :=
  let below := i.value / i.denominator
  let above := below + 1
  match i.contains below, i.contains above with
  | true, true =>
    let twice := 2 * (i.value % i.denominator)
    if twice < i.denominator then some below
    else if i.denominator < twice then some above
    else
      match tie with
      | .up => some above
      | .toEven => some (if below % 2 = 0 then below else above)
  | true, false => some below
  | false, true => some above
  | false, false => none

/-- The decimal exponent of the value's first digit. -/
def leadingExponent (i : Interval) : Int :=
  if i.denominator ≤ i.value then
    ((Nat.toDigits 10 (i.value / i.denominator)).length : Int) - 1
  else
    match (List.range 400).find? (fun j => i.denominator ≤ i.value * Nat.pow 10 (j + 1)) with
    | some j => -(j + 1 : Int)
    | none => -400

end Interval

/-- A decimal by its digits, first and last of them not zero, and the exponent
of the first one: `d.ddd · 10^exponent`. -/
structure Digits where
  digits : List Nat
  exponent : Int
deriving DecidableEq, Inhabited

namespace Digits

/-- The decimal digits of a number, most significant first. -/
def ofNat (n : Nat) : List Nat :=
  (Nat.toDigits 10 n).map (fun c => c.toNat - 48)

/-- The number `n · 10^k` with its trailing zeros dropped. -/
def ofScaled (n : Nat) (k : Int) : Digits :=
  let all := ofNat n
  { digits := (all.reverse.dropWhile (· == 0)).reverse
    exponent := k + all.length - 1 }

/-- The digits in front of the point and behind it, in positional notation. -/
def positional (d : Digits) : List Nat × List Nat :=
  if d.exponent < 0 then
    ([0], List.replicate (-d.exponent - 1).toNat 0 ++ d.digits)
  else
    let places := d.exponent.toNat + 1
    (d.digits.take places ++ List.replicate (places - d.digits.length) 0, d.digits.drop places)

end Digits

/-- The shortest decimal of an interval.  Seventeen digits are enough for every
double. -/
def shortest (i : Interval) (tie : Tie) : Digits :=
  let first := i.leadingExponent
  let hit := (List.range 18).findSome? fun (n : Nat) =>
    let k := first - (n : Int)
    ((i.inUnits k).nearest? tie).map fun d => Digits.ofScaled d k
  hit.getD ⟨[0], 0⟩

/-- The sign of a double and the shortest decimal of its magnitude, for finite
doubles.  Zero has the single digit zero. -/
def ofFloat? (x : Float) (tie : Tie) : Option (Bool × Digits) :=
  let bits := x.toBits.toNat
  let negative := bits / 0x8000000000000000 == 1
  let biased := bits / 0x10000000000000 % 2048
  let fraction := bits % 0x10000000000000
  if biased = 2047 then none
  else if biased = 0 ∧ fraction = 0 then some (negative, ⟨[0], 0⟩)
  else some (negative, shortest (Interval.ofFields fraction biased) tie)

/-- A double in running text: shortest digits, positional at any size, a tie
going up, without a point for whole numbers. -/
def plainText (x : Float) : String :=
  match ofFloat? x .up with
  | none => if x.isNaN then "NaN" else if x < 0 then "-inf" else "inf"
  | some (negative, d) =>
    let (front, behind) := d.positional
    (if negative then "-" else "") ++ digitText front
      ++ (if behind.isEmpty then "" else "." ++ digitText behind)

end BaudReel.Decimal
