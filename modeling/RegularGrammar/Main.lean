import RegularGrammar.CommandLine.Run

/-!
# The program

Reads the arguments and the files they name, and writes what the run leaves
behind.
-/

namespace RegularGrammar.CommandLine

/-- The text for arguments that give no options. -/
def usage : String :=
  "usage: regular-grammar [-s START] [-d rust|ecmascript] [-v] [-m FILE]... [GRAMMAR]\n"

/-- What a file holds. -/
def readFile (path : String) : IO Contents := do
  try
    return .ok (← IO.FS.readBinFile path)
  catch
    | .noFileOrDirectory .. => return .error .missing
    | e => return .error (.other (toString e))

/-- Everything on the standard input. -/
partial def readInput (input : IO.FS.Stream) (read : ByteArray) : IO ByteArray := do
  let more ← input.read 65536
  if more.isEmpty then return read
  readInput input (read ++ more)

/-- Whether colours are wanted: on a terminal, unless the environment forbids or forces them. -/
def wantsColours : IO Bool := do
  let isSet (name : String) : IO Bool := return (← IO.getEnv name).isSome
  if ← isSet "CLICOLOR_FORCE" then return true
  if ← isSet "NO_COLOR" then return false
  (← IO.getStdout).isTty

/-- Performs the run that the options ask for. -/
def perform (o : Options) : IO UInt32 := do
  let standardInput ←
    match o.grammarPath with
    | some _ => pure .empty
    | none => do readInput (← IO.getStdin) .empty
  let paths := o.grammarPath.toList ++ o.matchPaths
  let files ← paths.mapM fun path => return (path, ← readFile path)
  let surroundings : Surroundings :=
    ⟨.ok standardInput, fun path => (files.lookup path).getD (.error .missing)⟩
  let outcome := run (← wantsColours) o surroundings
  (← IO.getStdout).putStr outcome.output
  (← IO.getStderr).putStr outcome.errors
  return outcome.code.toUInt32

end RegularGrammar.CommandLine

def main (args : List String) : IO UInt32 :=
  match RegularGrammar.CommandLine.Options.ofArgs args with
  | some options => RegularGrammar.CommandLine.perform options
  | none => do
    (← IO.getStderr).putStr RegularGrammar.CommandLine.usage
    return 2
