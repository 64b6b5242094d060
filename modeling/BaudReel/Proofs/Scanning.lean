import BaudReel.Proofs.Rectangle

/-!
# Scanning is faithful

A scanner looks at each cell once, and comes to the segments that cutting the row first
would give (`Segment.lineOf_eq`).  Taken apart again they are the cells, each drawn by the
bits of its own word (`View.draw_eq`), and so it is for the rows of a whole grid.  The main
statement is `scanning_is_faithful`.
-/

namespace BaudReel

namespace Cell

variable (c : Cell)

/-- The bits `start` to `start + count - 1` of a cell's word, as a number. -/
theorem toNat_extract (start count : Nat) :
    (c.bits.toBitVec.extractLsb' start count).toNat =
      c.bits.toNat / 2 ^ start % 2 ^ count := by
  rw [BitVec.extractLsb'_toNat, UInt32.toNat_toBitVec, Nat.shiftRight_eq_div_pow]

/-- A bit of the word, by its number. -/
theorem getLsbD_bits (i : Nat) :
    c.bits.toBitVec.getLsbD i = (c.bits.toNat / 2 ^ i % 2 == 1) := by
  rw [← BitVec.testBit_toNat, UInt32.toNat_toBitVec, Nat.testBit_eq_decide_div_mod_eq]
  rfl

theorem codepoint_eq_bits : c.codepoint = .ofBitVec (c.bits.toBitVec.extractLsb' 0 8) := by
  apply UInt8.toNat.inj
  rw [toNat_codepoint, UInt8.toNat_ofBitVec, toNat_extract, Nat.pow_zero, Nat.div_one]
  rfl

theorem bg_eq_bits : c.bg = (c.bits.toBitVec.extractLsb' 8 4).toNat :=
  (c.toNat_extract 8 4).symm

/-- The background without its highest bit. -/
theorem bg_mod_eq_bits : c.bg % 8 = (c.bits.toBitVec.extractLsb' 8 3).toNat := by
  rw [bg, toNat_extract]
  omega

theorem fg_eq_bits : c.fg = (c.bits.toBitVec.extractLsb' 12 4).toNat :=
  (c.toNat_extract 12 4).symm

theorem blinkBit_eq_bit : c.blinkBit = c.bits.toBitVec.getLsbD 11 :=
  (c.getLsbD_bits 11).symm

theorem fgExplicit_eq_bit : c.fgExplicit = c.bits.toBitVec.getLsbD 16 :=
  (c.getLsbD_bits 16).symm

theorem bgExplicit_eq_bit : c.bgExplicit = c.bits.toBitVec.getLsbD 17 :=
  (c.getLsbD_bits 17).symm

end Cell

namespace View

/-- How a view draws a word, told by its bits: the code point in 0 to 7, the background in
8 to 11, of which the highest is the blink bit, the foreground in 12 to 15, and in 16 and
17 whether the art chose them. -/
def drawWord (view : View) (word : BitVec 32) : Drawn where
  glyph :=
    let codepoint := UInt8.ofBitVec (word.extractLsb' 0 8)
    if codepoint = 0 then ' ' else CodePage.glyph codepoint
  fg :=
    if view.transparency && !word.getLsbD 16 then none
    else some (word.extractLsb' 12 4).toNat
  bg :=
    if view.transparency && !word.getLsbD 17 then none
    else if view.blinkMode.isEnabled then some (word.extractLsb' 8 3).toNat
    else some (word.extractLsb' 8 4).toNat
  blink := view.blinkMode.isEnabled && word.getLsbD 11
  transparent := view.transparency && !word.getLsbD 17

/-- The glyph of a cell is that of its code point, where zero is a blank. -/
theorem glyphOf_eq (c : Cell) :
    Grid.glyphOf c = if c.codepoint = 0 then ' ' else CodePage.glyph c.codepoint := by
  have hspace : CodePage.glyph 0x20 = ' ' := by decide +kernel
  unfold Grid.glyphOf Cell.isUntouched
  by_cases hzero : c.codepoint = 0
  · rw [if_pos (beq_iff_eq.2 hzero), if_pos hzero, hspace]
  · rw [if_neg (mt beq_iff_eq.1 hzero), if_neg hzero]

/-- A cell is drawn by the bits of its word. -/
theorem draw_eq (view : View) (c : Cell) : view.draw c = view.drawWord c.bits.toBitVec := by
  rw [draw, glyphOf_eq, c.codepoint_eq_bits, c.bg_mod_eq_bits, c.bg_eq_bits, c.fg_eq_bits,
    c.blinkBit_eq_bit, c.fgExplicit_eq_bit, c.bgExplicit_eq_bit]
  rfl

end View

/-- **Scanning is faithful.**  In every view, whatever words the cells are:

* The segments of a scanned row, taken apart again, are its cells in order, each drawn by
  the bits of its own word.  None of the segments is empty.
* So it is at every place of a scanned grid, and where the grid has no cell nothing is
  drawn.  The grid blinks just if the view shows blinking and one of its cells, in
  whatever row, has the blink bit. -/
theorem scanning_is_faithful (view : View) :
    (∀ cells : List Cell,
      Line.expand (Segment.lineOf view cells) =
          cells.map (fun c => view.drawWord c.bits.toBitVec) ∧
        ∀ s ∈ Segment.lineOf view cells, s.text ≠ "") ∧
    ∀ g : Grid, g.Full →
      (∀ col row, ((g.scan view).lines[row]?.bind fun line => (Line.expand line)[col]?) =
        (g.get? col row).map fun c => view.drawWord c.bits.toBitVec) ∧
      ((g.scan view).willBlink = true ↔
        view.blinkMode.isEnabled = true ∧ ∃ c ∈ g.cells, c.bits.toBitVec.getLsbD 11 = true) := by
  have hdraw : view.draw = fun c => view.drawWord c.bits.toBitVec := funext view.draw_eq
  rw [← hdraw]
  refine ⟨?_, ?_⟩
  · intro cells
    exact ⟨Segment.expand_lineOf view cells, fun s hs => Segment.text_ne_empty view hs⟩
  · intro g hg
    refine ⟨fun col row => Grid.expand_lines hg view col row, ?_⟩
    rw [Grid.scan, Grid.anyBlinks_lines_iff hg]
    constructor
    · rintro ⟨henabled, col, row, c, hcell, hbit⟩
      rw [Cell.blinkBit_eq_bit] at hbit
      exact ⟨henabled, c, (Grid.mem_cells_iff hg).2 ⟨col, row, hcell⟩, hbit⟩
    · rintro ⟨henabled, c, hc, hbit⟩
      obtain ⟨col, row, hcell⟩ := (Grid.mem_cells_iff hg).1 hc
      rw [← Cell.blinkBit_eq_bit] at hbit
      exact ⟨henabled, col, row, c, hcell, hbit⟩

/-- Words with bits that no pen sets, among them one of all ones: its blink bit is shown
as blinking, and taken out of its background. -/
theorem scanning_is_faithful_ones :
    let view : View := { blinkMode := .host, transparency := true }
    let g : Grid := ⟨2, 2, #[⟨0x7000⟩, ⟨0x87841⟩, ⟨0xFFFFFFFF⟩, ⟨0x37900⟩]⟩
    g.Full ∧
      ((g.scan view).lines[1]?.bind fun line => (Line.expand line)[0]?) =
        some ⟨'\u00a0', some 15, some 7, true, false⟩ ∧
      (g.scan view).willBlink = true := by
  intro view g
  have hfull : g.Full := rfl
  obtain ⟨hdrawn, hblinks⟩ := (scanning_is_faithful view).2 g hfull
  refine ⟨hfull, (hdrawn 0 1).trans (by decide +kernel), hblinks.2 ⟨rfl, ⟨0xFFFFFFFF⟩, ?_, rfl⟩⟩
  simp [g]

end BaudReel
