import BaudReel.Config
import BaudReel.Json.Library
/-!
# Settings as documents

The written form of the playback settings and the form in which they are read.
Whatever a document leaves out, also inside `seek`, takes its default.  Settings
read from a text are checked before they are handed out.
-/

namespace BaudReel

open Json (Fields Form Library)

namespace ModemSpeed

/-- A speed is a number of bits under `bps`, or `unlimited`. -/
def toJson : ModemSpeed → Json
  | .bps bits => .record [("bps", .nat bits)]
  | .unlimited => .text "unlimited"

/-- Speeds are read as they are written. -/
def form : Form ModemSpeed :=
  .choice (.holding "bps" .word32 .bps (.plain "unlimited" .unlimited .none))

end ModemSpeed

namespace BlinkMode

/-- The name of a blink mode. -/
def name : BlinkMode → String
  | .off => "off"
  | .auto => "auto"
  | .host => "host"

/-- The blink modes by name. -/
def names : List (String × BlinkMode) :=
  [("off", .off), ("auto", .auto), ("host", .host)]

/-- A blink mode is written as its name. -/
def toJson (m : BlinkMode) : Json :=
  .text m.name

/-- Blink modes are read by their names. -/
def form : Form BlinkMode :=
  .choice (.ofNames names)

end BlinkMode

namespace Seek

/-- A starting point as a record. -/
def toJson [Library] (s : Seek) : Json :=
  .record [("position", Library.double s.position), ("resume", .bool s.resume)]

/-- The fields of a starting point. -/
def fields : Fields Seek :=
  .field "position" .double position (fun x s => { s with position := x }) <|
  .field "resume" .bool resume (fun b s => { s with resume := b })
  .none

/-- Starting points are read field by field. -/
def form : Form Seek :=
  .record {} fields

end Seek

namespace Config

/-- Settings as a record. -/
def toJson [Library] (c : Config) : Json :=
  .record
    [("modem_speed", c.modemSpeed.toJson),
     ("frame_interval_ms", .nat c.frameInterval),
     ("blink_duration_ms", .nat c.blinkDuration),
     ("blink_mode", c.blinkMode.toJson),
     ("transparency", .bool c.transparency),
     ("min_width", .nat c.minWidth),
     ("min_height", .nat c.minHeight),
     ("max_width", .nat c.maxWidth),
     ("max_height", .nat c.maxHeight),
     ("seek", c.seek.toJson)]

/-- The fields of settings. -/
def fields : Fields Config :=
  .field "modem_speed" ModemSpeed.form modemSpeed (fun s c => { c with modemSpeed := s }) <|
  .field "frame_interval_ms" .word64 frameInterval (fun n c => { c with frameInterval := n }) <|
  .field "blink_duration_ms" .word64 blinkDuration (fun n c => { c with blinkDuration := n }) <|
  .field "blink_mode" BlinkMode.form blinkMode (fun m c => { c with blinkMode := m }) <|
  .field "transparency" .bool transparency (fun b c => { c with transparency := b }) <|
  .field "min_width" .word64 minWidth (fun n c => { c with minWidth := n }) <|
  .field "min_height" .word64 minHeight (fun n c => { c with minHeight := n }) <|
  .field "max_width" .word64 maxWidth (fun n c => { c with maxWidth := n }) <|
  .field "max_height" .word64 maxHeight (fun n c => { c with maxHeight := n }) <|
  .field "seek" Seek.form seek (fun s c => { c with seek := s })
  .none

/-- Settings are read field by field. -/
def form : Form Config :=
  .record {} fields

/-- Why a text gives no settings. -/
inductive LoadError where
  /-- The library could not read it. -/
  | unreadable {complaint : String}
  /-- It describes settings that cannot be used. -/
  | unusable (fault : ConfigFault)

/-- The message shown for a text that gives no settings. -/
def LoadError.message : LoadError → String
  | @unreadable complaint => "Failed to parse config: " ++ complaint
  | .unusable fault => fault.message

/-- Reads and checks settings. -/
def parse [Library] (s : String) : Except LoadError Config :=
  match Library.read form s with
  | .error complaint => .error (@LoadError.unreadable complaint)
  | .ok c =>
    match c.fault? with
    | some fault => .error (.unusable fault)
    | none => .ok c

/-- Settings as text, laid out for human readers. -/
def render [Library] (c : Config) : String :=
  Library.pretty c.toJson

end Config

end BaudReel
