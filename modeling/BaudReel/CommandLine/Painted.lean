import BaudReel.CommandLine.Output
/-!
# Reading coloured text

A small terminal of its own for the colour escapes that frames are printed
with.  It understands four things: a foreground colour, a background colour,
giving up both, and a line feed, which begins the next row.  Every other
character is shown in the colours then in force.
-/

namespace BaudReel.CommandLine

/-- A character as shown, `none` for a colour that is not set. -/
structure Painted where
  glyph : Char
  fg : Option Rgb
  bg : Option Rgb
deriving DecidableEq, Inhabited

/-- The colours in force. -/
structure Brush where
  fg : Option Rgb := none
  bg : Option Rgb := none
deriving DecidableEq, Inhabited

namespace Brush

/-- The numbers of an escape, separated by semicolons. -/
def numbers (body : List Char) : List Nat :=
  (body.splitOn ';').map fun digits => digits.foldl (fun n c => 10 * n + (c.toNat - 48)) 0

/-- The brush behind an escape with the given numbers; none if it is not
understood. -/
def obey? (b : Brush) : List Nat → Option Brush
  | [38, 2, red, green, blue] => some { b with fg := some ⟨red, green, blue⟩ }
  | [48, 2, red, green, blue] => some { b with bg := some ⟨red, green, blue⟩ }
  | [0] => some {}
  | _ => none

end Brush

/-- What has been shown so far: the finished rows, each with the colours that
were in force at its end, the row begun, and the colours in force. -/
structure Painting where
  rows : List (List Painted × Brush) := []
  row : List Painted := []
  brush : Brush := {}
deriving DecidableEq, Inhabited

namespace Painting

/-- Where a reader of coloured text stands. -/
inductive Mode where
  | text
  /-- An escape character was read. -/
  | escape
  /-- Inside an escape, with its characters so far. -/
  | body (read : List Char)
deriving DecidableEq, Inhabited

/-- Shows a character outside escapes. -/
def place (p : Painting) (c : Char) : Painting :=
  if c = '\n' then { p with rows := p.rows ++ [(p.row, p.brush)], row := [] }
  else { p with row := p.row ++ [⟨c, p.brush.fg, p.brush.bg⟩] }

/-- Reads one character. -/
def step (state : Mode × Painting) (c : Char) : Option (Mode × Painting) :=
  match state with
  | (.text, p) => if c = '\x1b' then some (.escape, p) else some (.text, p.place c)
  | (.escape, p) => if c = '[' then some (.body [], p) else none
  | (.body read, p) =>
    if c = 'm' then (p.brush.obey? (Brush.numbers read)).map fun brush => (.text, { p with brush })
    else some (.body (read ++ [c]), p)

/-- Reads a text; none if it holds an escape that is not understood or not
finished. -/
def read? (text : String) : Option Painting :=
  match text.toList.foldlM step (Mode.text, {}) with
  | some (.text, p) => some p
  | _ => none

end Painting

end BaudReel.CommandLine
