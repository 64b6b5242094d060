import BaudReel.Cell
/-!
# The pen

The pen holds the colours that the next glyph is drawn with.  A colour is a
base of 0 to 7 and a bright flag worth 8 more.  A base that the art has chosen
is *explicit*; the default pen has chosen nothing.

A pen that is given from outside may have any byte as a base.  Colours are
bytes too, so the bright flag then wraps around.

Select-graphic-rendition codes change the pen one at a time (`Pen.select`), in
the order they are written.
-/

namespace BaudReel

/-- The colours in force. -/
structure Pen where
  fgBase : Nat := 7
  bgBase : Nat := 0
  fgBright : Bool := false
  bgBright : Bool := false
  fgExplicit : Bool := false
  bgExplicit : Bool := false
deriving DecidableEq, Inhabited

namespace Pen

/-- Foreground colour with its brightness. -/
def fg (p : Pen) : Nat :=
  (p.fgBase + if p.fgBright then 8 else 0) % 256

/-- Background colour with its brightness. -/
def bg (p : Pen) : Nat :=
  (p.bgBase + if p.bgBright then 8 else 0) % 256

/-- The effect of one rendition code.  Codes without a meaning here change
nothing. -/
def select (p : Pen) (code : Nat) : Pen :=
  if code = 0 then {}
  else if code = 1 then { p with fgBright := true }
  else if code = 2 ∨ code = 22 then { p with fgBright := false }
  else if code = 5 ∨ code = 6 then { p with bgBright := true }
  else if code = 7 then
    { p with fgBase := p.bgBase, bgBase := p.fgBase, fgExplicit := true, bgExplicit := true }
  else if code = 8 then { p with fgBase := p.bgBase, fgExplicit := true }
  else if code = 25 then { p with bgBright := false }
  else if 30 ≤ code ∧ code ≤ 37 then { p with fgBase := code - 30, fgExplicit := true }
  else if 40 ≤ code ∧ code ≤ 47 then { p with bgBase := code - 40, bgExplicit := true }
  else p

/-- Applies rendition codes from left to right. -/
def selectAll (p : Pen) (codes : List Nat) : Pen :=
  codes.foldl select p

/-- The cell that the pen leaves for a code point.  Explicitness is recorded
only on a transparent screen. -/
def stamp (p : Pen) (codepoint : UInt8) (transparency : Bool) : Cell :=
  Cell.pack codepoint p.fg p.bg (transparency && p.fgExplicit) (transparency && p.bgExplicit)

/-- The cell that erasing leaves: no glyph, in the pen's colours. -/
def blank (p : Pen) (transparency : Bool) : Cell :=
  p.stamp 0 transparency

end Pen

end BaudReel
