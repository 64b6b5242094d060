/-!
# Screen cells

A cell of the screen is one 32-bit word that packs a glyph and its colours:

    bits 0-7    code point: the byte shown, 0 for a cell never printed to
    bits 8-11   background colour; bit 11 doubles as the blink bit
    bits 12-15  foreground colour
    bit 16      the foreground was chosen by the art
    bit 17      the background was chosen by the art

The fields are read by division and remainder, so that packing and unpacking
are plain arithmetic.  Words with higher bits set occur only when a cell is
given from outside; nothing here clears those bits.
-/

namespace BaudReel

/-- A packed screen cell. -/
structure Cell where
  bits : UInt32
deriving DecidableEq, Inhabited

namespace Cell

/-- The weight of a flag in a word: `weight` if it is set, nothing if not. -/
def flag (weight : Nat) (set : Bool) : Nat :=
  if set then weight else 0

/-- Packs a code point and its colours.  Of a colour only the four low bits
fit. -/
def pack (codepoint : UInt8) (fg bg : Nat) (fgExplicit bgExplicit : Bool) : Cell :=
  ⟨UInt32.ofNat (codepoint.toNat + bg % 16 * 256 + fg % 16 * 4096
    + flag 65536 fgExplicit + flag 131072 bgExplicit)⟩

/-- The cell of a fresh screen: light gray on black, never printed to. -/
def untouched : Cell :=
  pack 0 7 0 false false

/-- The byte that the cell shows. -/
def codepoint (c : Cell) : UInt8 :=
  UInt8.ofNat c.bits.toNat

/-- Foreground colour, 0 to 15. -/
def fg (c : Cell) : Nat :=
  c.bits.toNat / 4096 % 16

/-- Background colour, 0 to 15. -/
def bg (c : Cell) : Nat :=
  c.bits.toNat / 256 % 16

/-- The bright bit of the background, which terminals with blinking text read
as "blinks". -/
def blinkBit (c : Cell) : Bool :=
  c.bits.toNat / 2048 % 2 == 1

/-- Whether the art chose the foreground. -/
def fgExplicit (c : Cell) : Bool :=
  c.bits.toNat / 65536 % 2 == 1

/-- Whether the art chose the background. -/
def bgExplicit (c : Cell) : Bool :=
  c.bits.toNat / 131072 % 2 == 1

/-- Whether the cell was never printed to. -/
def isUntouched (c : Cell) : Bool :=
  c.codepoint == 0

/-- Everything but the code point: bits 8 to 19 of the word, in place. -/
def attributes (c : Cell) : Nat :=
  c.bits.toNat / 256 % 4096 * 256

/-- A flag adds its weight if it is set. -/
theorem flag_eq_toNat (weight : Nat) (set : Bool) : flag weight set = weight * set.toNat := by
  cases set <;> simp [flag]

/-- The word of a packed cell, as a sum of its fields. -/
theorem toNat_pack (codepoint : UInt8) (fg bg : Nat) (fgExplicit bgExplicit : Bool) :
    (pack codepoint fg bg fgExplicit bgExplicit).bits.toNat =
      codepoint.toNat + bg % 16 * 256 + fg % 16 * 4096
        + 65536 * fgExplicit.toNat + 131072 * bgExplicit.toNat := by
  have hcode := codepoint.toNat_lt
  have hfg := fgExplicit.toNat_le
  have hbg := bgExplicit.toNat_le
  simp only [pack, flag_eq_toNat, UInt32.toNat_ofNat']
  omega

/-- The code point is the lowest byte of the word. -/
theorem toNat_codepoint (c : Cell) : c.codepoint.toNat = c.bits.toNat % 256 := by
  simp [codepoint]

/-- A packed cell has the code point it was packed with. -/
@[simp]
theorem codepoint_pack (codepoint : UInt8) (fg bg : Nat) (fgExplicit bgExplicit : Bool) :
    (pack codepoint fg bg fgExplicit bgExplicit).codepoint = codepoint := by
  have hcode := codepoint.toNat_lt
  apply UInt8.toNat.inj
  rw [toNat_codepoint, toNat_pack]
  omega

/-- A packed cell has the low four bits of the foreground. -/
@[simp]
theorem fg_pack (codepoint : UInt8) (fg bg : Nat) (fgExplicit bgExplicit : Bool) :
    (pack codepoint fg bg fgExplicit bgExplicit).fg = fg % 16 := by
  have hcode := codepoint.toNat_lt
  rw [Cell.fg, toNat_pack]
  omega

@[simp]
theorem bg_pack (codepoint : UInt8) (fg bg : Nat) (fgExplicit bgExplicit : Bool) :
    (pack codepoint fg bg fgExplicit bgExplicit).bg = bg % 16 := by
  have hcode := codepoint.toNat_lt
  rw [Cell.bg, toNat_pack]
  omega

/-- A packed cell knows whether its foreground was chosen. -/
@[simp]
theorem fgExplicit_pack (codepoint : UInt8) (fg bg : Nat) (fgExplicit bgExplicit : Bool) :
    (pack codepoint fg bg fgExplicit bgExplicit).fgExplicit = fgExplicit := by
  have hcode := codepoint.toNat_lt
  rw [Cell.fgExplicit, toNat_pack]
  cases fgExplicit <;> cases bgExplicit <;> simp <;> omega

@[simp]
theorem bgExplicit_pack (codepoint : UInt8) (fg bg : Nat) (fgExplicit bgExplicit : Bool) :
    (pack codepoint fg bg fgExplicit bgExplicit).bgExplicit = bgExplicit := by
  have hcode := codepoint.toNat_lt
  rw [Cell.bgExplicit, toNat_pack]
  cases fgExplicit <;> cases bgExplicit <;> simp <;> omega

/-- The blink bit is the top bit of the background colour. -/
theorem blinkBit_eq (c : Cell) : c.blinkBit = decide (8 ≤ c.bg) := by
  rw [blinkBit, bg, Bool.eq_iff_iff, beq_iff_eq, decide_eq_true_iff]
  omega

/-- Cells with equal attributes agree in all but the code point. -/
theorem fields_of_attributes_eq {a b : Cell} (h : a.attributes = b.attributes) :
    a.fg = b.fg ∧ a.bg = b.bg ∧ a.fgExplicit = b.fgExplicit ∧ a.bgExplicit = b.bgExplicit := by
  simp only [attributes, fg, bg, fgExplicit, bgExplicit] at h ⊢
  have hbits : a.bits.toNat / 256 % 4096 = b.bits.toNat / 256 % 4096 := by omega
  refine ⟨by omega, by omega, ?_, ?_⟩
  · rw [Bool.eq_iff_iff, beq_iff_eq, beq_iff_eq]
    omega
  · rw [Bool.eq_iff_iff, beq_iff_eq, beq_iff_eq]
    omega

end Cell

end BaudReel
