/-!
# Screen actions

What a stream asks of the screen: print a glyph, obey a control code, run a
control sequence, or note that the visible text has ended.

A control sequence carries the numbers written before its final byte.  They
are separated by semicolons, and an empty or unreadable piece is a number left
out, so there is always one place more than there are semicolons.
-/

namespace BaudReel

/-- The control codes that do something other than show their glyph. -/
inductive ControlCode where
  | bell
  | backspace
  | tab
  | lineFeed
  | formFeed
  | carriageReturn
deriving DecidableEq, Inhabited

namespace ControlCode

/-- The control code that a byte is, if any. -/
def ofByte? (byte : UInt8) : Option ControlCode :=
  match byte with
  | 0x07 => some .bell
  | 0x08 => some .backspace
  | 0x09 => some .tab
  | 0x0A => some .lineFeed
  | 0x0C => some .formFeed
  | 0x0D => some .carriageReturn
  | _ => none

/-- The byte of a control code. -/
def toByte : ControlCode → UInt8
  | .bell => 0x07
  | .backspace => 0x08
  | .tab => 0x09
  | .lineFeed => 0x0A
  | .formFeed => 0x0C
  | .carriageReturn => 0x0D

/-- Every control code is read from the byte that it is. -/
theorem ofByte?_toByte (c : ControlCode) : ofByte? c.toByte = some c := by
  cases c <;> rfl

/-- A control code is read from no other byte. -/
theorem toByte_of_ofByte? {byte : UInt8} {c : ControlCode} (h : ofByte? byte = some c) :
    c.toByte = byte := by
  unfold ofByte? at h
  split at h <;> cases h <;> rfl

end ControlCode

/-- A control sequence: its numbers, where one may be left out, and the byte
that names the command. -/
structure ControlSequence where
  finalByte : UInt8
  params : List (Option Nat)
deriving DecidableEq, Inhabited

namespace ControlSequence

/-- Whether a byte is a decimal digit. -/
def isDigit (byte : UInt8) : Bool :=
  48 ≤ byte && byte ≤ 57

/-- The number that a string of digits writes. -/
def decimalValue (digits : List UInt8) : Nat :=
  digits.foldl (fun n d => 10 * n + (d.toNat - 48)) 0

/-- The largest number a sequence can carry; larger ones count as this. -/
def maxParam : Nat := 65535

/-- Reads one piece between semicolons: only a non-empty string of digits is a
number. -/
def readParam (piece : List UInt8) : Option Nat :=
  if piece.isEmpty || !piece.all isDigit then none
  else some (min (decimalValue piece) maxParam)

/-- The pieces between semicolons, empty ones kept. -/
def pieces (raw : List UInt8) : List (List UInt8) :=
  raw.splitOn 0x3B

/-- The control sequence with the given bytes between its opening and its
final byte. -/
def ofRaw (raw : List UInt8) (finalByte : UInt8) : ControlSequence where
  finalByte := finalByte
  params := (pieces raw).map readParam

/-- The number in place `index`, or `default` where none was given. -/
def param (s : ControlSequence) (index default : Nat) : Nat :=
  (s.params[index]?.getD none).getD default

/-- All numbers, with `default` for those left out. -/
def paramsOr (s : ControlSequence) (default : Nat) : List Nat :=
  s.params.map (·.getD default)

end ControlSequence

/-- One request of the stream to the screen. -/
inductive Action where
  /-- Show the glyph of a byte. -/
  | print (byte : UInt8)
  /-- Obey a control code. -/
  | control (code : ControlCode)
  /-- Run a control sequence. -/
  | sequence (s : ControlSequence)
  /-- The visible text has ended; only descriptive strings follow. -/
  | endOfText
  /-- A descriptive string from behind the end of the text. -/
  | metadata (text : String)
deriving DecidableEq, Inhabited

end BaudReel
