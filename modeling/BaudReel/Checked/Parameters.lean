import BaudReel.Action
import BaudReel.Checked

/-!
# Numbers of a control sequence in machine words

The number that digits write can be any, and where it is too large the limit counts in its
place.  A machine has no place for such numbers.  It takes the digits one by one into a word
of 32 bits, where products and sums stop at the largest word, and cuts what it has then to
one of 16 bits.  This file reads the numbers of a control sequence in that way; a byte that
is below all digits has no value and leaves no result.
-/

namespace BaudReel

namespace Word

/-- A sum that stops at the largest 32-bit word. -/
def addUpTo32 (a b : Nat) : Nat :=
  min (a + b) max32

/-- A product that stops at the largest 32-bit word. -/
def mulUpTo32 (a b : Nat) : Nat :=
  min (a * b) max32

/-- The lower 16 bits of a number. -/
def lower16 (n : Nat) : Nat :=
  n % (max16 + 1)

end Word

namespace ControlSequence

/-- One digit more of a number; those read so far move up by one place. -/
def pushDigit? (value : Nat) (byte : UInt8) : Option Nat := do
  let digit ← Word.sub? byte.toNat 48
  some (Word.addUpTo32 (Word.mulUpTo32 value 10) digit)

/-- Reads one piece between semicolons. -/
def readParam? (piece : List UInt8) : Option (Option Nat) :=
  if piece.isEmpty || !piece.all isDigit then some none
  else do
    let value ← piece.foldlM pushDigit? 0
    some (some (Word.lower16 (min value Word.max16)))

/-- The control sequence with the given bytes between its opening and its final byte. -/
def ofRaw? (raw : List UInt8) (finalByte : UInt8) : Option ControlSequence := do
  let params ← (pieces raw).mapM readParam?
  some { finalByte, params }

end ControlSequence

end BaudReel
