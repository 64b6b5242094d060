/-!
# Word sizes

The largest values of the unsigned words that settings and documents are held
in.  The library computes with natural numbers and names a limit where one is
part of a rule.
-/

namespace BaudReel.Word

/-- The largest 8-bit word. -/
def max8 : Nat := 0xFF

/-- The largest 16-bit word. -/
def max16 : Nat := 0xFFFF

/-- The largest 32-bit word. -/
def max32 : Nat := 0xFFFFFFFF

/-- The largest 64-bit word. -/
def max64 : Nat := 0xFFFFFFFFFFFFFFFF

/-- The largest 128-bit word. -/
def max128 : Nat := 0xFFFFFFFFFFFFFFFFFFFFFFFFFFFFFFFF

end BaudReel.Word
