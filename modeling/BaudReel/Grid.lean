import BaudReel.CodePage
import BaudReel.Grid.Rearrangement
/-!
# The screen grid

A grid holds its cells in one array, row after row.  Single cells are read and
written by position, and whole stretches are rearranged.  Positions outside the
grid hold nothing and are left alone.  A grid that is `Full`, which a fresh one
is, stays so under every operation.
-/

namespace BaudReel

/-- A screen of `cols` times `rows` cells, row after row. -/
structure Grid where
  cols : Nat
  rows : Nat
  cells : Array Cell
deriving DecidableEq, Inhabited

namespace Grid

/-- A fresh screen.  It has at least one column and one row. -/
def fresh (cols rows : Nat) : Grid where
  cols := max cols 1
  rows := max rows 1
  cells := Array.replicate (max cols 1 * max rows 1) Cell.untouched

/-- Whether the grid has as many cells as its size says. -/
def Full (g : Grid) : Prop :=
  g.cells.size = g.cols * g.rows

/-- A new grid has all its cells. -/
theorem full_fresh (cols rows : Nat) : (fresh cols rows).Full := by
  simp [Full, fresh]

/-- Whether a position lies on the grid. -/
def Inside (g : Grid) (col row : Nat) : Prop :=
  col < g.cols ∧ row < g.rows

instance (g : Grid) (col row : Nat) : Decidable (g.Inside col row) :=
  inferInstanceAs (Decidable (_ ∧ _))

/-- The cell at a position of the grid. -/
def get? (g : Grid) (col row : Nat) : Option Cell :=
  if g.Inside col row then g.cells[row * g.cols + col]? else none

/-- Writes one cell; a position outside the grid is left alone. -/
def set (g : Grid) (col row : Nat) (cell : Cell) : Grid :=
  if g.Inside col row then
    { g with cells := g.cells.setIfInBounds (row * g.cols + col) cell }
  else g

@[simp]
theorem cols_set (g : Grid) (col row : Nat) (cell : Cell) : (g.set col row cell).cols = g.cols := by
  rw [set]
  split <;> rfl

@[simp]
theorem rows_set (g : Grid) (col row : Nat) (cell : Cell) : (g.set col row cell).rows = g.rows := by
  rw [set]
  split <;> rfl

/-- A grid keeps all its cells when one of them is set. -/
theorem Full.set {g : Grid} (h : g.Full) (col row : Nat) (cell : Cell) :
    (g.set col row cell).Full := by
  rw [Grid.set]
  split
  · exact (Array.size_setIfInBounds ..).trans h
  · exact h

/-- The cells of one row. -/
def row? (g : Grid) (row : Nat) : Option (List Cell) :=
  if row < g.rows then
    some (g.cells.extract (row * g.cols) (row * g.cols + g.cols)).toList
  else none

/-- All rows from top to bottom. -/
def rowList (g : Grid) : List (List Cell) :=
  (List.range g.rows).filterMap g.row?

/-- The glyph of a cell, a space where nothing was printed. -/
def glyphOf (c : Cell) : Char :=
  CodePage.glyph (if c.isUntouched then 0x20 else c.codepoint)

/-- The text of one row, empty for a row that does not exist. -/
def rowText (g : Grid) (row : Nat) : String :=
  String.ofList (((g.row? row).getD []).map glyphOf)

/-- Overwrites a range of cells in row-major order, clamped to the grid. -/
def fill (g : Grid) (start stop : Nat) (cell : Cell) : Grid :=
  { g with cells := Edit.fillRange g.cells start stop cell }

/-- Carries out an operation, with `blank` for the cells that it frees. -/
def rearrange (g : Grid) (r : Rearrangement) (blank : Cell) : Grid :=
  { g with cells := (r.edits g.cols g.rows).foldl (Edit.apply blank) g.cells }

/-- A grid keeps all its cells when they are rearranged. -/
theorem Full.rearrange {g : Grid} (h : g.Full) (r : Rearrangement) (blank : Cell) :
    (g.rearrange r blank).Full := by
  have hwithin : ∀ e ∈ r.edits g.cols g.rows, e.Within g.cells.size := by
    rw [h]
    exact r.edits_within g.cols g.rows
  exact (Edit.size_foldl_apply blank hwithin).trans h

end Grid

end BaudReel
