import BaudReel.Config.Document
import BaudReel.Json.Screen
import BaudReel.Source
/-!
# Frames

A frame is everything there is to see of a session at one moment: the screen
as segments, the blink phase, how far playback has come, the descriptive
strings found so far and, if the source failed, why.
-/

namespace BaudReel

/-- How far playback has come. -/
structure Status where
  /-- Fraction of the bytes played. -/
  position : Float := 0.0
  /-- Whether more is to come. -/
  playing : Bool := true
deriving Inhabited

namespace Status

/-- Playback has ended at a position. -/
def stopped (position : Float) : Status :=
  ⟨position, false⟩

/-- Whether two statuses say the same; positions are compared as numbers. -/
def agrees (a b : Status) : Bool :=
  a.position == b.position && a.playing == b.playing

end Status

/-- What there is to see of a session at one moment. -/
structure Frame where
  width : Nat
  height : Nat
  /-- The rows from top to bottom. -/
  lines : List Line
  blinkMode : BlinkMode
  /-- The blink phase: while it holds, blinking text is hidden. -/
  blinked : Bool
  /-- Whether any text blinks. -/
  willBlink : Bool
  status : Status
  /-- The descriptive strings; none before rendering has begun. -/
  metadata : Option (List String) := none
  /-- Why the source failed; the screen then shows the same message. -/
  error : Option SourceError := none
deriving Inhabited

namespace Frame

/-- The frame that shows a grid. -/
def capture (grid : Grid) (view : View) (blinked : Bool) (status : Status) : Frame :=
  let scan := grid.scan view
  { width := grid.cols
    height := grid.rows
    lines := scan.lines
    blinkMode := view.blinkMode
    blinked
    willBlink := scan.willBlink
    status }

/-- An empty screen of the smallest size. -/
def blank (config : Config) (status : Status) : Frame :=
  capture (.fresh config.minWidth config.minHeight) config.view false status

/-- The text of a line. -/
def textOf (line : Line) : String :=
  String.join (line.map (·.text))

/-- The text of one row, empty for a row that does not exist. -/
def lineText (f : Frame) (row : Nat) : String :=
  textOf (f.lines.getD row [])

/-- The screen as plain text, each row ended by a line feed. -/
def toText (f : Frame) : String :=
  String.join (f.lines.map fun line => textOf line ++ "\n")

/-- Whether two frames show the same screen in the same blink phase. -/
def sameContent (a b : Frame) : Bool :=
  a.width == b.width && a.height == b.height && a.lines == b.lines && a.blinked == b.blinked

/-- A frame as a record.  Of an error only the message is written. -/
def toJson [Json.Library] (f : Frame) : Json :=
  .record
    [("width", .nat f.width),
     ("height", .nat f.height),
     ("lines", .list (.list Segment.toJson) f.lines),
     ("blink_mode", f.blinkMode.toJson),
     ("blinked", .bool f.blinked),
     ("will_blink", .bool f.willBlink),
     ("status", .record
       [("position", Json.Library.double f.status.position), ("playing", .bool f.status.playing)]),
     ("metadata", .optional (.list .text) f.metadata),
     ("error", .optional (fun e => .text e.message) f.error)]

end Frame

end BaudReel
