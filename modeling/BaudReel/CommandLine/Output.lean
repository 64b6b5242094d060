import BaudReel.CommandLine.Options
import BaudReel.Frame
import BaudReel.Palette
/-!
# Printed frames

A frame is printed as plain text under a heading, as a document, or with
24-bit colour escapes that show it on a present-day terminal.
-/

namespace BaudReel.CommandLine

/-- The opening of every escape sequence. -/
def escapeOpening : String := "\x1b["

/-- The sequence that selects a display colour.  `plane` is 38 for the
foreground and 48 for the background. -/
def colorEscape (plane : Nat) (c : Rgb) : String :=
  escapeOpening ++ s!"{plane};2;{c.red};{c.green};{c.blue}m"

/-- The sequence for a colour that may be left undrawn. -/
def colorEscape? (plane : Nat) : Option Rgb → String
  | none => ""
  | some c => colorEscape plane c

/-- A segment in its colours, which are given up behind it. -/
def ansiSegment (palette : Palette) (blinked : Bool) (s : Segment) : String :=
  let (fg, bg) := palette.segmentColors s blinked
  colorEscape? 38 fg ++ colorEscape? 48 bg ++ s.text ++ escapeOpening ++ "0m"

/-- A frame with colour escapes, each row ended by a line feed. -/
def ansiText (palette : Palette) (f : Frame) : String :=
  String.join (f.lines.map fun line =>
    String.join (line.map (ansiSegment palette f.blinked)) ++ "\n")

/-- A frame as plain text between rules, with the descriptive strings behind
it. -/
def plainText (f : Frame) : String :=
  s!"ANSI Art ({f.width}x{f.height}):\n---\n" ++ f.toText ++ "---\n"
    ++ String.join ((f.metadata.getD []).map (· ++ "\n"))

/-- A frame in the format asked for. -/
def printed [Json.Library] (f : Frame) : OutputFormat → String
  | .text => plainText f
  | .json => Json.Library.pretty f.toJson ++ "\n"
  | .ansi => ansiText .cga f

/-- A frame as one line of a record of all frames. -/
def recordLine [Json.Library] (f : Frame) : String :=
  Json.Library.compact f.toJson ++ "\n"

/-- The text that explains the options. -/
def helpText : String :=
  "\n".intercalate
    ["ANSI Art Headless Runner",
     "",
     "Usage: ansi-headless [OPTIONS] [INPUT_FILE]",
     "",
     "Options:",
     "  -c, --cols <N>         Fix the screen width (default: 79-80, detected)",
     "  -r, --rows <N>         Maximum screen height (default: 25)",
     "  -b, --baud <N>         Print every frame at N bits/s as JSON lines",
     "      --blink <MODE>     Blink mode: off, auto, host (default: off)",
     "      --transparency     Leave colours that were never set undrawn",
     "      --config <PATH>    Read playback settings from a JSON file",
     "  -f, --file <PATH>      Read input from file",
     "  -t, --text             Output the final frame as text (default)",
     "  -j, --json             Output the final frame as JSON",
     "  -a, --ansi             Output the final frame with 24-bit colour",
     "  -h, --help             Show this help message",
     "",
     "If no input file is specified, reads from stdin.",
     "Set RUST_LOG=debug to trace sizing and playback.",
     "",
     "Examples:",
     "  ansi-headless --ansi art.ans",
     "  ansi-headless -c 80 -r 50 --json < art.ans > frame.json",
     "  ansi-headless --baud 2400 art.ans > frames.jsonl",
     ""]

end BaudReel.CommandLine
