import BaudReel.Grid
/-!
# Segments

A row of cells is shown as a list of segments: stretches of text drawn alike.
How a cell is drawn depends on the *view*.  Where blinking is shown, the bright
bit of the background means "blinks" and is taken out of the colour; where it
is not, the background has sixteen colours.  On a transparent view a colour
that the art never chose is left undrawn.

A row of cells is scanned once, from left to right.  Between two cells the
scanner keeps the segments that are finished and the run that is still open:
its attributes, its first cell and its text so far.  A cell with other
attributes finishes the open run and opens its own, and the end of the row
finishes the last one.  How a run is drawn is read off its first cell alone.
-/

namespace BaudReel

/-- Who makes text blink. -/
inductive BlinkMode where
  /-- Nobody; the blink bit is background brightness. -/
  | off
  /-- The session, by flipping the frames' blink phase. -/
  | auto
  /-- Whoever displays the frames. -/
  | host
deriving DecidableEq, Inhabited

/-- Whether blinking is shown at all. -/
def BlinkMode.isEnabled : BlinkMode → Bool
  | .off => false
  | _ => true

/-- How cells are turned into segments. -/
structure View where
  blinkMode : BlinkMode := .off
  transparency : Bool := false
deriving DecidableEq, Inhabited

/-- A stretch of one row drawn alike.  A colour of `none` is left undrawn. -/
structure Segment where
  text : String
  fg : Option Nat
  bg : Option Nat
  blink : Bool
  transparent : Bool
deriving DecidableEq, Inhabited

/-- One row of a frame. -/
abbrev Line := List Segment

namespace Segment

/-- The colour of the glyphs in a blink phase: hidden blinking text has the
colour of its background. -/
def displayFg (s : Segment) (blinked : Bool) : Option Nat :=
  if s.blink && blinked then s.bg else s.fg

/-- How many cells the segment covers. -/
def width (s : Segment) : Nat :=
  s.text.length

/-- The segment of a text whose first cell is given. -/
def of (view : View) (text : String) (first : Cell) : Segment :=
  let blinking := view.blinkMode.isEnabled
  let fgDrawn := !view.transparency || first.fgExplicit
  let bgDrawn := !view.transparency || first.bgExplicit
  { text
    fg := if fgDrawn then some first.fg else none
    bg := if bgDrawn then some (if blinking then first.bg % 8 else first.bg) else none
    blink := blinking && first.blinkBit
    transparent := !bgDrawn }

end Segment

/-- A run that may still go on. -/
structure OpenRun where
  attributes : Nat
  first : Cell
  text : String
deriving DecidableEq, Inhabited

namespace OpenRun

/-- The run that a cell opens. -/
def start (c : Cell) : OpenRun :=
  ⟨c.attributes, c, String.singleton (Grid.glyphOf c)⟩

/-- The run with one more cell. -/
def push (run : OpenRun) (c : Cell) : OpenRun :=
  { run with text := run.text.push (Grid.glyphOf c) }

/-- The segment of a run that is over. -/
def close (view : View) (run : OpenRun) : Segment :=
  .of view run.text run.first

end OpenRun

/-- What is kept of the cells scanned so far. -/
structure Scanner where
  line : Line := []
  run : Option OpenRun := none
deriving DecidableEq, Inhabited

namespace Scanner

/-- Scans one cell. -/
def step (view : View) (s : Scanner) (c : Cell) : Scanner :=
  match s.run with
  | some run =>
    if run.attributes = c.attributes then { s with run := some (run.push c) }
    else ⟨s.line ++ [run.close view], some (.start c)⟩
  | none => { s with run := some (.start c) }

/-- The row is over. -/
def finish (view : View) (s : Scanner) : Line :=
  match s.run with
  | some run => s.line ++ [run.close view]
  | none => s.line

end Scanner

/-- The segments of a row, scanned cell by cell. -/
def Segment.lineOf (view : View) (cells : List Cell) : Line :=
  (cells.foldl (Scanner.step view) {}).finish view

/-- Whether any segment of these lines blinks. -/
def anyBlinks (lines : List Line) : Bool :=
  lines.any fun line => line.any (·.blink)

/-- A whole grid as segments. -/
structure Scan where
  lines : List Line
  /-- Whether any segment blinks. -/
  willBlink : Bool
deriving DecidableEq, Inhabited

namespace Grid

/-- The rows of the grid as segments. -/
def lines (g : Grid) (view : View) : List Line :=
  g.rowList.map (Segment.lineOf view)

/-- Scans every row of the grid. -/
def scan (g : Grid) (view : View) : Scan :=
  let lines := g.lines view
  ⟨lines, anyBlinks lines⟩

end Grid

end BaudReel
