import BaudReel.Config.Document
import BaudReel.Json.Printer
import BaudReel.Json.Reader
import BaudReel.Json.Shape
/-!
# The library that programs run with

The two printers and the reader of this development, put together as a JSON
library.  Reading goes through the tree of the document, so that the reader of a
declared form sees no text.
-/

namespace BaudReel

namespace Json

/-- A double; one that is not finite has no number and is written `null`. -/
def float (x : Float) : Json :=
  match Decimal.Numeral.ofFloat? x with
  | some n => .number n
  | none => .null

/-- Reads a text as a value of a declared form. -/
def readForm {α : Type} (form : Form α) (text : String) : Except String α :=
  match (read? text).bind form.ofJson? with
  | some a => .ok a
  | none => .error "not a document of the expected form"

instance standard : Library where
  double := float
  compact := compact
  pretty := pretty
  read := readForm

end Json

/-- Reads a speed. -/
def ModemSpeed.ofJson? (j : Json) : Option ModemSpeed :=
  form.ofJson? j

/-- Reads a blink mode. -/
def BlinkMode.ofJson? (j : Json) : Option BlinkMode :=
  form.ofJson? j

/-- Reads a starting point. -/
def Seek.ofJson? (j : Json) : Option Seek :=
  form.ofJson? j

/-- Reads settings, unchecked. -/
def Config.ofJson? (j : Json) : Option Config :=
  form.ofJson? j

end BaudReel
