import BaudReel.Json.Form
import BaudReel.Json.Layout
/-!
# JSON libraries

Documents are written to texts and read from texts by a library, and what the
library does is no part of this development: it is a parameter, the class
`Library`.  A library writes documents in two layouts and turns a declared form
into a reader.

What is relied on is `Library.Faithful`: texts of a document can be read again,
whatever the order of the fields is, as long as the document has the declared
form.  Whether a double survives being written is a question of its own
(`Library.Rereads`).  A library may read some doubles as a neighbour of what was
written.
-/

namespace BaudReel.Json

/-- A library that writes and reads documents.  Writing always succeeds, since documents have
texts for names.  Reading gives a value or says what is wrong with the text. -/
class Library where
  /-- The document of a double. -/
  double : Float → Json
  /-- The text of a document on a single line. -/
  compact : Json → String
  /-- The text of a document, laid out for human readers. -/
  pretty : Json → String
  /-- Reads a text as a value of a declared form. -/
  read : {α : Type} → Form α → String → Except String α

namespace Library

variable [Library]

/-- A double is read from a document that stands alone in a text. -/
def ReadsDouble (j : Json) (x : Float) : Prop :=
  ∃ text, LaysOut text j ∧ read .double text = .ok x

/-- A double is read back from the text that is written for it. -/
def Rereads (x : Float) : Prop :=
  read .double (compact (double x)) = .ok x

/-- What is relied on of a library. -/
structure Faithful [Library] : Prop where
  /-- Doubles are written with digits, or as `null` where they are not finite. -/
  plain_double (x : Float) : (double x).Plain
  /-- The text on a single line lays out its document. -/
  laysOut_compact {j : Json} (h : j.Plain) : LaysOut (compact j) j
  /-- The text for human readers lays out its document. -/
  laysOut_pretty {j : Json} (h : j.Plain) : LaysOut (pretty j) j
  /-- A text is read as what its document stands for, unless objects are nested as deep as
  libraries refuse to follow. -/
  read_eq {α : Type} {form : Form α} {text : String} {j : Json} {a : α}
    (hdepth : form.depth < 128) (hmeans : form.Means ReadsDouble j a) (htext : LaysOut text j) :
    read form text = .ok a

end Library

end BaudReel.Json
