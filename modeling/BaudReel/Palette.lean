import BaudReel.Segment
/-!
# Palettes

Cells and segments name colours by number; a palette gives sixteen of them as
red, green and blue.
-/

namespace BaudReel

/-- A display colour. -/
structure Rgb where
  red : Nat
  green : Nat
  blue : Nat
deriving DecidableEq, Inhabited

namespace Rgb

/-- Two lower-case hexadecimal digits. -/
def hexPair (n : Nat) : List Char :=
  [Nat.digitChar (n / 16 % 16), Nat.digitChar (n % 16)]

/-- The usual written form, a number sign and six hexadecimal digits. -/
def hex (c : Rgb) : String :=
  String.ofList ('#' :: (hexPair c.red ++ hexPair c.green ++ hexPair c.blue))

end Rgb

/-- Sixteen display colours. -/
structure Palette where
  colors : List Rgb
deriving DecidableEq, Inhabited

namespace Palette

/-- The colours of the IBM colour graphics adapter, in the order of the
rendition codes. -/
def cga : Palette where
  colors :=
    [⟨0x00, 0x00, 0x00⟩, ⟨0xAA, 0x00, 0x00⟩, ⟨0x00, 0xAA, 0x00⟩, ⟨0xAA, 0x55, 0x00⟩,
     ⟨0x00, 0x00, 0xAA⟩, ⟨0xAA, 0x00, 0xAA⟩, ⟨0x00, 0xAA, 0xAA⟩, ⟨0xAA, 0xAA, 0xAA⟩,
     ⟨0x55, 0x55, 0x55⟩, ⟨0xFF, 0x55, 0x55⟩, ⟨0x55, 0xFF, 0x55⟩, ⟨0xFF, 0xFF, 0x55⟩,
     ⟨0x55, 0x55, 0xFF⟩, ⟨0xFF, 0x55, 0xFF⟩, ⟨0x55, 0xFF, 0xFF⟩, ⟨0xFF, 0xFF, 0xFF⟩]

/-- The colour with a given number; numbers wrap around at sixteen. -/
def rgb (p : Palette) (index : Nat) : Rgb :=
  p.colors.getD (index % 16) ⟨0, 0, 0⟩

/-- What a segment's glyphs and background are drawn with in a blink phase,
`none` where they are not drawn. -/
def segmentColors (p : Palette) (s : Segment) (blinked : Bool) : Option Rgb × Option Rgb :=
  ((s.displayFg blinked).map p.rgb, s.bg.map p.rgb)

end Palette

end BaudReel
