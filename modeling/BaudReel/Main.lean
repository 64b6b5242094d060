import BaudReel.CommandLine.Program
/-!
# The command line

The outer layer: it fetches the files and the standard input that a run needs,
and prints what the run leaves behind.
-/

namespace BaudReel.CommandLine

/-- Reads a file. -/
def fetchFile (path : String) : IO (Except FileError (List UInt8)) := do
  try
    let bytes ← IO.FS.readBinFile path
    return .ok bytes.data.toList
  catch e =>
    match e with
    | .noFileOrDirectory .. => return .error .notFound
    | .inappropriateType .. => return .error .isDirectory
    | e => return .error (.other (toString e))

/-- Reads a stream to its end. -/
partial def fetchAll (stream : IO.FS.Stream) (begun : ByteArray) : IO ByteArray := do
  let more ← stream.read 65536
  if more.isEmpty then return begun else fetchAll stream (begun ++ more)

/-- The arguments that may name settings files. -/
def settingsPaths : List String → List String
  | "--config" :: path :: rest => path :: settingsPaths (path :: rest)
  | _ :: rest => settingsPaths rest
  | [] => []

/-- Files that have been fetched, as a look-up. -/
def lookUp (fetched : List (String × Except FileError (List UInt8))) : Files :=
  fun path => (fetched.lookup path).getD (.error .notFound)

/-- Prints what a run leaves behind. -/
def report (outcome : Outcome) : IO UInt32 := do
  (← IO.getStdout).putStr outcome.output
  (← IO.getStderr).putStr outcome.errors
  return UInt32.ofNat outcome.exitCode

/-- Runs the program on arguments: the settings files are fetched first, then
what the settings ask for. -/
def runFetched (arguments : List String) : IO UInt32 := do
  let settings ← (settingsPaths arguments).mapM fun path => return (path, ← fetchFile path)
  match Options.parse (lookUp settings) arguments with
  | .error e => report (refusal e)
  | .ok options =>
    match options.inputFile with
    | some path =>
      let fetched ← fetchFile path
      report (options.run (lookUp [(path, fetched)]) [])
    | none =>
      let input ← if options.showHelp then pure .empty else fetchAll (← IO.getStdin) .empty
      report (options.run (lookUp []) input.data.toList)

end BaudReel.CommandLine

/-- Runs the program on the arguments given to it. -/
def main (arguments : List String) : IO UInt32 :=
  BaudReel.CommandLine.runFetched arguments
