import BaudReel.Token
/-!
# Writing streams

A script is what an artist would write down: glyphs, control codes, escaped
bytes and control sequences with their numbers, and, if the text is ended, the
descriptive strings behind its end.  A script spells bytes and stands for
actions.
-/

namespace BaudReel

namespace ControlSequence

/-- A number as decimal digits. -/
def writeNat (n : Nat) : List UInt8 :=
  (Nat.toDigits 10 n).map fun c => UInt8.ofNat c.toNat

/-- A number that may be left out. -/
def writeParam : Option Nat → List UInt8
  | none => []
  | some n => writeNat n

/-- The numbers of a control sequence, separated by semicolons. -/
def writeParams (params : List (Option Nat)) : List UInt8 :=
  [0x3B].intercalate (params.map writeParam)

end ControlSequence

/-- One thing to write. -/
inductive Item where
  | control (code : ControlCode)
  | escaped (byte : UInt8)
  | sequence (params : List (Option Nat)) (finalByte : UInt8)
  | glyph (byte : UInt8)
deriving DecidableEq, Inhabited

namespace Item

/-- What can be written: numbers within their limit, in a text that is kept as
a whole. -/
def Valid : Item → Prop
  | .control _ => True
  | .escaped byte => byte ≠ Parser.bracket
  | .sequence params finalByte =>
    params ≠ [] ∧ (∀ n, some n ∈ params → n ≤ ControlSequence.maxParam) ∧
      (ControlSequence.writeParams params).length ≤ Parser.maxKept ∧
      Parser.isFinal finalByte = true
  | .glyph byte =>
    ControlCode.ofByte? byte = none ∧ byte ≠ Parser.endMark ∧ byte ≠ Parser.escapeByte

/-- The token that writes an item. -/
def token : Item → Token
  | .control code => .control code
  | .escaped byte => .escaped byte
  | .sequence params finalByte => .sequence (ControlSequence.writeParams params) finalByte
  | .glyph byte => .glyph byte

/-- The actions that an item stands for. -/
def actions : Item → List Action
  | .control code => [.control code]
  | .escaped byte => [.print Parser.escapeByte, .print byte]
  | .sequence params finalByte => [.sequence ⟨finalByte, params⟩]
  | .glyph byte => [.print byte]

end Item

/-- What is to be written, and the descriptive strings if the text is ended. -/
structure Script where
  items : List Item
  strings : Option (List (List UInt8))
deriving DecidableEq, Inhabited

namespace Script

/-- A descriptive string has at least one byte, and none that would end it. -/
def ValidString (s : List UInt8) : Prop :=
  s ≠ [] ∧ ∀ byte ∈ s, Parser.endsString byte = false

/-- Every part can be written. -/
def Valid (s : Script) : Prop :=
  (∀ i ∈ s.items, i.Valid) ∧ ∀ strings, s.strings = some strings → ∀ t ∈ strings, ValidString t

/-- The bytes behind the visible text. -/
def endingBytes : Option (List (List UInt8)) → List UInt8
  | none => []
  | some strings => Parser.endMark :: strings.flatMap fun s => s ++ [0]

/-- The actions behind the visible text. -/
def endingActions : Option (List (List UInt8)) → List Action
  | none => []
  | some strings => .endOfText :: strings.map fun s => .metadata (CodePage.decode s)

/-- The bytes of the script. -/
def bytes (s : Script) : List UInt8 :=
  s.items.flatMap (fun i => i.token.bytes) ++ endingBytes s.strings

/-- The actions of the script. -/
def actions (s : Script) : List Action :=
  s.items.flatMap Item.actions ++ endingActions s.strings

end Script

end BaudReel
