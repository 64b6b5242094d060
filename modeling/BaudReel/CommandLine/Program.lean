import BaudReel.CommandLine.Output
import BaudReel.Json.Standard
import BaudReel.Session
/-!
# The program

What the program prints and the code it ends with, as a function of its
arguments, the files and the standard input.  A stream is played without
pauses and without blinking on; either every frame is printed as it comes, or
the last one alone.
-/

namespace BaudReel.CommandLine

/-- What a run of the program leaves behind. -/
structure Outcome where
  exitCode : Nat := 0
  output : String := ""
  errors : String := ""
deriving DecidableEq, Inhabited

/-- The source that the options name: a file that is read when it is first
asked for, or the standard input. -/
def Options.source (o : Options) (files : Files) (input : List UInt8) : Source :=
  match o.inputFile with
  | none => .bytes input
  | some path =>
    match files path with
    | .ok data => .ofLoader (.loads data)
    | .error e => .ofLoader (.fails (.io e.message))

/-- All frames that the options ask to play. -/
def Options.frames (o : Options) (source : Source) : List Frame :=
  let session := (Session.fresh o.config).withoutSustain
  (Performance.playAll .silent ⟨session, source, ()⟩).1

/-- What is printed of the frames.  A source that could not be read is an
error, although its message has been played. -/
def Options.outcome [Json.Library] (o : Options) (frames : List Frame) : Outcome :=
  let streamed := if o.stream then String.join (frames.map recordLine) else ""
  match frames.getLast? with
  | none => { output := streamed }
  | some frame =>
    { exitCode := if frame.error.isSome then 1 else 0
      output := if o.stream then streamed else printed frame o.format
      errors :=
        match frame.error with
        | some e => "Error reading input: " ++ e.message ++ "\n"
        | none => "" }

/-- Runs the program with options that have been understood. -/
def Options.run [Json.Library] (o : Options) (files : Files) (input : List UInt8) : Outcome :=
  if o.showHelp then { output := helpText }
  else o.outcome (o.frames (o.source files input))

/-- What is printed for arguments that have not been understood. -/
def refusal (e : UsageError) : Outcome :=
  { exitCode := 1, errors := e.message ++ "\nTry --help for usage.\n" }

/-- Runs the program. -/
def run [Json.Library] (files : Files) (input : List UInt8) (arguments : List String) : Outcome :=
  match Options.parse files arguments with
  | .error e => refusal e
  | .ok o => o.run files input

end BaudReel.CommandLine
