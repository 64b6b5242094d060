import BaudReel.Segment
/-!
# Drawing cell by cell

A segment says how a whole stretch of a row is drawn.  This file says the same
of a single cell, so that the grouping of cells into segments can be compared
with drawing each cell by itself: `View.draw` looks at one cell alone, and
`Segment.expand` takes a segment apart again.  Cells and segments that differ in
nothing but their text have the same `Look`.

In between stands the row that is cut first: `Segment.runs` are its longest
pieces of equal attributes, and each of them is one segment (`Segment.ofRuns`).
-/

namespace BaudReel

/-- How one cell is drawn.  A colour of `none` is left undrawn. -/
structure Drawn where
  glyph : Char
  fg : Option Nat
  bg : Option Nat
  blink : Bool
  transparent : Bool
deriving DecidableEq, Inhabited

/-- How a view draws a cell.  A transparent view leaves undrawn what the art
did not choose; a view that shows blinking takes the blink bit out of the
background. -/
def View.draw (view : View) (c : Cell) : Drawn where
  glyph := Grid.glyphOf c
  fg := if view.transparency && !c.fgExplicit then none else some c.fg
  bg :=
    if view.transparency && !c.bgExplicit then none
    else if view.blinkMode.isEnabled then some (c.bg % 8)
    else some c.bg
  blink := view.blinkMode.isEnabled && c.blinkBit
  transparent := view.transparency && !c.bgExplicit

/-- The cells of a segment, each drawn as the segment says. -/
def Segment.expand (s : Segment) : List Drawn :=
  s.text.toList.map fun glyph => ⟨glyph, s.fg, s.bg, s.blink, s.transparent⟩

/-- The cells of a line. -/
def Line.expand (line : Line) : List Drawn :=
  line.flatMap Segment.expand

/-- How something is drawn, whatever the text. -/
structure Look where
  fg : Option Nat
  bg : Option Nat
  blink : Bool
  transparent : Bool
deriving DecidableEq, Inhabited

def Drawn.look (d : Drawn) : Look :=
  ⟨d.fg, d.bg, d.blink, d.transparent⟩

def Segment.look (s : Segment) : Look :=
  ⟨s.fg, s.bg, s.blink, s.transparent⟩

namespace Segment

/-- Cuts a row where the attributes of its cells change. -/
def runs (cells : List Cell) : List (List Cell) :=
  cells.splitBy (fun a b => a.attributes == b.attributes)

/-- The segment of a run of cells with equal attributes, which are those of
its first cell. -/
def ofRun? (view : View) (run : List Cell) : Option Segment :=
  run.head?.map (.of view (String.ofList (run.map Grid.glyphOf)))

/-- The segments of a row that is cut into its runs first. -/
def ofRuns (view : View) (cells : List Cell) : Line :=
  (runs cells).filterMap (ofRun? view)

end Segment

/-- A run of cells with equal attributes is drawn as its segment says. -/
theorem Segment.expand_ofRun? (view : View) {run : List Cell} {first : Cell}
    (hfirst : run.head? = some first) (hequal : ∀ c ∈ run, c.attributes = first.attributes) :
    ((Segment.ofRun? view run).map Segment.expand).getD [] = run.map view.draw := by
  rw [Segment.ofRun?, hfirst]
  simp only [Option.map_some, Option.getD_some, Segment.expand, Segment.of, String.toList_ofList,
    List.map_map]
  apply List.map_congr_left
  intro c hc
  obtain ⟨hfg, hbg, hfgSet, hbgSet⟩ := Cell.fields_of_attributes_eq (hequal c hc)
  have hblink : c.blinkBit = first.blinkBit := by rw [Cell.blinkBit_eq, Cell.blinkBit_eq, hbg]
  simp only [Function.comp_apply, View.draw, hfg, hbg, hfgSet, hbgSet, hblink]
  cases view.transparency <;> cases first.fgExplicit <;> cases first.bgExplicit <;>
    cases view.blinkMode.isEnabled <;> rfl

end BaudReel
