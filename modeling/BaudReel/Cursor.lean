/-!
# The cursor

A position on the screen, counted from zero, with one remembered position.
-/

namespace BaudReel

/-- Where the next glyph goes, and the position remembered for later. -/
structure Cursor where
  col : Nat := 0
  row : Nat := 0
  savedCol : Nat := 0
  savedRow : Nat := 0
deriving DecidableEq, Inhabited

namespace Cursor

/-- Moves to the top left corner; the remembered position stays. -/
def home (c : Cursor) : Cursor :=
  { c with col := 0, row := 0 }

/-- Remembers the present position. -/
def save (c : Cursor) : Cursor :=
  { c with savedCol := c.col, savedRow := c.row }

/-- Returns to the remembered position. -/
def restore (c : Cursor) : Cursor :=
  { c with col := c.savedCol, row := c.savedRow }

end Cursor

end BaudReel
