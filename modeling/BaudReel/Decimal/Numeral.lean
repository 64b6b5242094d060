/-!
# Numerals

A numeral is a number as it is written: a sign, a whole part, the digits behind
the point and an exponent.
-/

namespace BaudReel.Decimal

/-- A number as written. -/
structure Numeral where
  negative : Bool := false
  whole : Nat
  /-- The digits behind the point; without a point there are none. -/
  fraction : List Nat := []
  exponent : Option Int := none
deriving DecidableEq, Inhabited

/-- Digits as text. -/
def digitText (digits : List Nat) : String :=
  String.ofList (digits.map Nat.digitChar)

/-- The number that digits write. -/
def valueOf (digits : List Nat) : Nat :=
  digits.foldl (fun n d => 10 * n + d) 0

namespace Numeral

/-- A whole number as a numeral. -/
def ofNat (n : Nat) : Numeral where
  whole := n

/-- The written form.  An exponent always has its sign. -/
def text (n : Numeral) : String :=
  let sign := if n.negative then "-" else ""
  let behind := if n.fraction.isEmpty then "" else "." ++ digitText n.fraction
  let power :=
    match n.exponent with
    | none => ""
    | some e => (if e < 0 then "e-" else "e+") ++ toString e.natAbs
  sign ++ toString n.whole ++ behind ++ power

/-- The natural number a numeral is, if it is written without sign, point and
exponent. -/
def toNat? (n : Numeral) : Option Nat :=
  if n.negative || !n.fraction.isEmpty || n.exponent.isSome then none else some n.whole

end Numeral

end BaudReel.Decimal
