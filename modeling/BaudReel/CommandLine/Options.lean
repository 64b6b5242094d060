import BaudReel.Config.Document
/-!
# Command line options

The arguments are read from left to right.  Each one changes the options that
the ones before it have left; a settings file replaces all settings, so what it
says can still be changed by the arguments behind it.  The first thing that
cannot be understood ends the reading.  What is left at the end is checked as a
whole.

Files are looked up by a function, so that reading the arguments is itself a
function of the arguments and the files.
-/

namespace BaudReel.CommandLine

/-- Why a file could not be read. -/
inductive FileError where
  | notFound
  | isDirectory
  /-- Its bytes are no text. -/
  | notText
  | other (text : String)
deriving DecidableEq, Inhabited

/-- The message for a file that could not be read. -/
def FileError.message : FileError → String
  | .notFound => "No such file or directory (os error 2)"
  | .isDirectory => "Is a directory (os error 21)"
  | .notText => "stream did not contain valid UTF-8"
  | .other text => text

/-- The files that can be read, by path. -/
abbrev Files := String → Except FileError (List UInt8)

/-- The text of a file. -/
def Files.text (files : Files) (path : String) : Except FileError String :=
  match files path with
  | .error e => .error e
  | .ok bytes =>
    match String.fromUTF8? ⟨bytes.toArray⟩ with
    | some text => .ok text
    | none => .error .notText

/-- What is printed in the end. -/
inductive OutputFormat where
  | text
  | json
  | ansi
deriving DecidableEq, Inhabited

/-- What the arguments ask for. -/
structure Options where
  config : Config := { modemSpeed := .unlimited }
  inputFile : Option String := none
  format : OutputFormat := .text
  /-- Print every frame and not only the last one. -/
  stream : Bool := false
  showHelp : Bool := false

/-- Why arguments are refused. -/
inductive UsageError where
  | missingValue (flag : String)
  | invalidNumber (value flag : String)
  | unknownBlinkMode (value : String)
  | unknownArgument (argument : String)
  | unreadableConfig (path : String) (error : FileError)
  | badConfig (error : Config.LoadError)
  /-- The settings that are left at the end cannot be used. -/
  | unusable (fault : ConfigFault)

/-- The message for refused arguments. -/
def UsageError.message : UsageError → String
  | .missingValue flag => s!"Missing value for {flag}"
  | .invalidNumber value flag => s!"Invalid value '{value}' for {flag}"
  | .unknownBlinkMode value => s!"Unknown blink mode '{value}'"
  | .unknownArgument argument => s!"Unknown argument '{argument}'"
  | .unreadableConfig path error => s!"Error reading config '{path}': " ++ error.message
  | .badConfig error => error.message
  | .unusable fault => fault.message

/-- Options that take the argument behind them as their value. -/
inductive Setting where
  | config
  | cols
  | rows
  | baud
  | blink
  | file
deriving DecidableEq, Inhabited

/-- Options that stand alone. -/
inductive Switch where
  | transparency
  | format (f : OutputFormat)
  | help
deriving DecidableEq, Inhabited

/-- The setting that an argument names. -/
def Setting.ofText? (argument : String) : Option Setting :=
  [("--config", .config), ("-c", .cols), ("--cols", .cols), ("-r", .rows), ("--rows", .rows),
   ("-b", .baud), ("--baud", .baud), ("--blink", .blink), ("-f", .file),
   ("--file", Setting.file)].lookup argument

/-- The switch that an argument names. -/
def Switch.ofText? (argument : String) : Option Switch :=
  [("--transparency", .transparency), ("-j", .format .json), ("--json", .format .json),
   ("-t", .format .text), ("--text", .format .text), ("-a", .format .ansi),
   ("--ansi", .format .ansi), ("-h", .help), ("--help", Switch.help)].lookup argument

/-- A number as users write it: digits, with an optional plus sign. -/
def numberOf? (value : String) : Option Nat :=
  let digits :=
    match value.toList with
    | '+' :: rest => rest
    | cs => cs
  if digits.isEmpty || !digits.all Char.isDigit then none
  else some (digits.foldl (fun n d => 10 * n + (d.toNat - 48)) 0)

/-- A positive number that fits a 64-bit word. -/
def positive (flag value : String) : Except UsageError Nat :=
  match numberOf? value with
  | some n => if 0 < n ∧ n ≤ Word.max64 then .ok n else .error (.invalidNumber value flag)
  | none => .error (.invalidNumber value flag)

namespace Options

/-- Applies a setting.  A fixed width is both limits of the width; a maximal
height lowers the minimal one where it has to.  A speed keeps the low 32 bits
of its number. -/
def set [Json.Library] (files : Files) (o : Options) (setting : Setting) (flag value : String) :
    Except UsageError Options :=
  match setting with
  | .config =>
    match files.text value with
    | .error e => .error (.unreadableConfig value e)
    | .ok text =>
      match Config.parse text with
      | .error e => .error (.badConfig e)
      | .ok config => .ok { o with config }
  | .cols =>
    match positive flag value with
    | .error e => .error e
    | .ok n => .ok { o with config := { o.config with minWidth := n, maxWidth := n } }
  | .rows =>
    match positive flag value with
    | .error e => .error e
    | .ok n =>
      .ok { o with
        config := { o.config with maxHeight := n, minHeight := min o.config.minHeight n } }
  | .baud =>
    match positive flag value with
    | .error e => .error e
    | .ok n =>
      .ok { o with
        config := { o.config with modemSpeed := .bps (n % (Word.max32 + 1)) }
        stream := true }
  | .blink =>
    match BlinkMode.names.lookup value with
    | none => .error (.unknownBlinkMode value)
    | some mode => .ok { o with config := { o.config with blinkMode := mode } }
  | .file => .ok { o with inputFile := some value }

/-- Applies a switch. -/
def turnOn (o : Options) : Switch → Options
  | .transparency => { o with config := { o.config with transparency := true } }
  | .format f => { o with format := f }
  | .help => { o with showHelp := true }

/-- An argument that is no option names the input file, if none is named yet
and it does not look like an option. -/
def positional (o : Options) (argument : String) : Except UsageError Options :=
  if o.inputFile.isNone && argument.toList.head? != some '-' then
    .ok { o with inputFile := some argument }
  else .error (.unknownArgument argument)

/-- Applies arguments from left to right. -/
def applyAll [Json.Library] (files : Files) (o : Options) (arguments : List String) :
    Except UsageError Options :=
  match arguments with
  | [] => .ok o
  | argument :: rest =>
    match Setting.ofText? argument with
    | some setting =>
      match rest with
      | [] => .error (.missingValue argument)
      | value :: rest =>
        match o.set files setting argument value with
        | .error e => .error e
        | .ok o => o.applyAll files rest
    | none =>
      match Switch.ofText? argument with
      | some switch => (o.turnOn switch).applyAll files rest
      | none =>
        match o.positional argument with
        | .error e => .error e
        | .ok o => o.applyAll files rest

/-- Reads arguments and checks what they ask for. -/
def parse [Json.Library] (files : Files) (arguments : List String) : Except UsageError Options :=
  match ({} : Options).applyAll files arguments with
  | .error e => .error e
  | .ok o =>
    match o.config.fault? with
    | some fault => .error (.unusable fault)
    | none => .ok o

end Options

end BaudReel.CommandLine
