import BaudReel.Terminal
import BaudReel.Word
/-!
# The terminal in machine words

Grids are indexed and cursors moved by natural numbers, and places outside an array are
passed over.  A machine computes with words and has to keep to the arrays it has.  This
file gives the same operations as a machine carries them out: in the order in which it
computes, where a sum or a product that is no word, a difference below zero, and a range
or an index outside its array all have no result.

Two kinds of steps need no check.  Sums and products that *saturate* stop at the largest
word, and a difference that does so stops at zero, as a difference of natural numbers
does anyway.  And a fill is cut to the array first.
-/

namespace BaudReel

namespace Word

/-- A sum, if it is a word. -/
def add? (a b : Nat) : Option Nat :=
  if a + b ≤ max64 then some (a + b) else none

/-- A difference, if it is a word. -/
def sub? (a b : Nat) : Option Nat :=
  if b ≤ a then some (a - b) else none

/-- A product, if it is a word. -/
def mul? (a b : Nat) : Option Nat :=
  if a * b ≤ max64 then some (a * b) else none

/-- A sum that stops at the largest word. -/
def addUpTo (a b : Nat) : Nat :=
  min (a + b) max64

/-- A product that stops at the largest word. -/
def mulUpTo (a b : Nat) : Nat :=
  min (a * b) max64

end Word

namespace Edit

/-- Whether the range `start ≤ i < stop` may be taken of an array of `size` cells. -/
def Sliceable (size start stop : Nat) : Prop :=
  start ≤ stop ∧ stop ≤ size

instance (size start stop : Nat) : Decidable (Sliceable size start stop) :=
  inferInstanceAs (Decidable (_ ∧ _))

/-- Carries out one edit within the array.  A move has to read and to write inside it, a
fill is cut to it. -/
def applied? (blank : Cell) (cells : Array Cell) : Edit → Option (Array Cell)
  | .fill start stop =>
    let start := min start cells.size
    let stop := min stop cells.size
    if start < stop then
      if Sliceable cells.size start stop then some (fillRange cells start stop blank) else none
    else some cells
  | .move start stop dest =>
    if Sliceable cells.size start stop ∧ dest ≤ cells.size - (stop - start) then
      some (moveRange cells start stop dest)
    else none

end Edit

namespace Rearrangement

/-- The index of a position, up to the largest word. -/
def offsetUpTo (cols col row : Nat) : Nat :=
  Word.addUpTo (Word.mulUpTo row cols) (min col cols)

/-- Blank rows in front of row `row`. -/
def insertion? (cols rows row count : Nat) : Option (List Edit) := do
  let below ← Word.sub? rows row
  let count := min count below
  let start ← Word.mul? row cols
  let kept ← Word.sub? rows count
  let stop ← Word.mul? kept cols
  let next ← Word.add? row count
  let dest ← Word.mul? next cols
  some [.move start stop dest, .fill start dest]

/-- Rows from `row` on pulled up, blank rows at the bottom. -/
def deletion? (cols rows row count : Nat) : Option (List Edit) := do
  let below ← Word.sub? rows row
  let count := min count below
  let next ← Word.add? row count
  let start ← Word.mul? next cols
  let stop ← Word.mul? rows cols
  let dest ← Word.mul? row cols
  let kept ← Word.sub? rows count
  let first ← Word.mul? kept cols
  some [.move start stop dest, .fill first stop]

/-- What an operation does to the `size` cells of a grid of `cols` times `rows`. -/
def edits? (cols rows size : Nat) : Rearrangement → Option (List Edit)
  | .eraseInDisplay mode col row => some (erasure mode 0 (offsetUpTo cols col row) size)
  | .eraseInLine mode col row =>
    if rows ≤ row then some []
    else do
      let first ← Word.mul? row cols
      let last ← Word.add? first cols
      some (erasure mode first (offsetUpTo cols col row) last)
  | .insertLines row count => if rows ≤ row then some [] else insertion? cols rows row count
  | .deleteLines row count => if rows ≤ row then some [] else deletion? cols rows row count
  | .deleteChars col row count =>
    if rows ≤ row ∨ cols ≤ col then some []
    else do
      let behind ← Word.sub? cols col
      let count := min count behind
      let first ← Word.mul? row cols
      let start ← Word.add? first col
      let next ← Word.add? row 1
      let last ← Word.mul? next cols
      let rest ← Word.add? start count
      let kept ← Word.sub? last count
      some [.move rest last start, .fill kept last]
  | .eraseChars col row count =>
    if rows ≤ row then some []
    else do
      let start := offsetUpTo cols col row
      let next ← Word.add? row 1
      let last ← Word.mul? next cols
      some [.fill start (min (Word.addUpTo start count) last)]
  | .scrollUp count => do
    let count := min count rows
    let start ← Word.mul? count cols
    let kept ← Word.sub? rows count
    let first ← Word.mul? kept cols
    let stop ← Word.mul? rows cols
    some [.move start size 0, .fill first stop]
  | .scrollDown count => do
    let count := min count rows
    let kept ← Word.sub? rows count
    let stop ← Word.mul? kept cols
    let dest ← Word.mul? count cols
    some [.move 0 stop dest, .fill 0 dest]

end Rearrangement

namespace Grid

/-- A fresh screen, if its cells can be counted. -/
def fresh? (cols rows : Nat) : Option Grid := do
  let cols := max cols 1
  let rows := max rows 1
  let size ← Word.mul? cols rows
  some ⟨cols, rows, Array.replicate size Cell.untouched⟩

/-- The index of a position of the grid, which has to be that of a cell. -/
def index? (g : Grid) (col row : Nat) : Option Nat := do
  let first ← Word.mul? row g.cols
  let index ← Word.add? first col
  if index < g.cells.size then some index else none

/-- Reads the cell at a position; outside the grid there is none. -/
def read? (g : Grid) (col row : Nat) : Option (Option Cell) :=
  if g.Inside col row then do
    let index ← g.index? col row
    some g.cells[index]?
  else some none

/-- Reads the cells of a row; outside the grid there are none. -/
def readRow? (g : Grid) (row : Nat) : Option (Option (List Cell)) :=
  if row < g.rows then do
    let start ← Word.mul? row g.cols
    let stop ← Word.add? start g.cols
    if Edit.Sliceable g.cells.size start stop then
      some (some (g.cells.extract start stop).toList)
    else none
  else some none

/-- Writes one cell; a position outside the grid is left alone. -/
def set? (g : Grid) (col row : Nat) (cell : Cell) : Option Grid :=
  if g.Inside col row then do
    let index ← g.index? col row
    some { g with cells := g.cells.setIfInBounds index cell }
  else some g

/-- Carries out an operation. -/
def rearrange? (g : Grid) (r : Rearrangement) (blank : Cell) : Option Grid := do
  let edits ← r.edits? g.cols g.rows g.cells.size
  let cells ← edits.foldlM (Edit.applied? blank) g.cells
  some { g with cells }

end Grid

namespace Head

/-- Steps over a printed glyph in `row`. -/
def advance? (h : Head) (row : Nat) : Option Head := do
  let col ← Word.add? h.cursor.col 1
  if h.maxCols ≤ col then do
    let below ← Word.add? row 1
    some (h.moveTo 0 below)
  else some (h.moveTo col row)

/-- Prints at the cursor. -/
def print? (h : Head) (codepoint : UInt8) : Option (Head × List Stroke) :=
  if h.maxRows ≤ h.cursor.row then do
    let past ← Word.sub? h.cursor.row h.maxRows
    let count ← Word.add? past 1
    let last ← Word.sub? h.maxRows 1
    let next ← h.advance? last
    some (next,
      [.rearrange (.scrollUp count) h.pen, .put h.cursor.col last codepoint h.pen])
  else do
    let next ← h.advance? h.cursor.row
    some (next, [.put h.cursor.col h.cursor.row codepoint h.pen])

/-- Obeys a control code. -/
def control? (h : Head) : ControlCode → Option (Head × List Stroke)
  | .tab => do
    let next ← Word.add? (h.cursor.col / tabWidth) 1
    let stop ← Word.mul? next tabWidth
    let last ← Word.sub? h.maxCols 1
    some (h.moveTo (min stop last) h.cursor.row, [])
  | .lineFeed => do
    let row ← Word.add? h.cursor.row 1
    some (h.moveTo h.cursor.col row, [])
  | code => some (h.control code)

/-- Runs a control sequence.  Down and forward are sums; every other command either stops
at zero or computes nothing. -/
def sequence? (h : Head) (s : ControlSequence) : Option (Head × List Stroke) :=
  let count := s.param 0 1
  match Char.ofNat s.finalByte.toNat with
  | 'B' => do
    let row ← Word.add? h.cursor.row count
    let last ← Word.sub? h.maxRows 1
    some (h.moveTo h.cursor.col (min row last), [])
  | 'C' => do
    let col ← Word.add? h.cursor.col count
    let last ← Word.sub? h.maxCols 1
    some (h.moveTo (min col last) h.cursor.row, [])
  | _ => some (h.sequence s)

/-- The effect of an action on the head, and the strokes it leaves. -/
def applied? (h : Head) : Action → Option (Head × List Stroke)
  | .print codepoint => h.print? codepoint
  | .control code => h.control? code
  | .sequence s => h.sequence? s
  | .endOfText => some (h, [])
  | .metadata _ => some (h, [])

end Head

namespace Canvas

/-- Draws one stroke. -/
def draw? (c : Canvas) (stroke : Stroke) : Option Canvas :=
  match c, stroke with
  | .gauge farCol farRow, .put col row _ _ => some (.gauge (max farCol col) (max farRow row))
  | .gauge farCol farRow, .rearrange (.insertLines row count) _ =>
    if row ≤ farRow then do
      let grown ← Word.add? farRow count
      some (.gauge farCol grown)
    else some (.gauge farCol farRow)
  | .gauge farCol farRow, .rearrange _ _ => some (.gauge farCol farRow)
  | .screen grid transparency, .put col row codepoint pen => do
    let grid ← grid.set? col row (pen.stamp codepoint transparency)
    some (.screen grid transparency)
  | .screen grid transparency, .rearrange r pen => do
    let grid ← grid.rearrange? r (pen.blank transparency)
    some (.screen grid transparency)

/-- Columns and rows needed to show all that was printed. -/
def extent? : Canvas → Option (Nat × Nat)
  | .gauge farCol farRow => do
    let cols ← Word.add? farCol 1
    let rows ← Word.add? farRow 1
    some (cols, rows)
  | .screen .. => some (1, 1)

end Canvas

namespace Terminal

/-- Applies one action. -/
def applied? (t : Terminal) (a : Action) : Option Terminal := do
  let (head, strokes) ← t.head.applied? a
  let canvas ← strokes.foldlM Canvas.draw? t.canvas
  let drawn := !t.canvas.isGauge
  let bells ← if drawn then Word.add? t.bells (bellsOf a) else some t.bells
  some
    { t with
      head
      canvas
      endOfText := t.endOfText || endsText a
      metadata := if drawn then t.metadata ++ stringsOf a else t.metadata
      bells }

end Terminal

end BaudReel
