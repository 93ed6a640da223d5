import CommandGrammar.Tool

/-!
# Program

The program gathers the files that its request names and the variables of the
environment, runs the tool on them, and prints what it answers.
-/

namespace CommandGrammar

/-- What a path leads to. A file that cannot be opened counts as missing. -/
def readEntry (path : String) : IO Entry := do
  try return .file (← IO.FS.readBinFile path)
  catch
    | .inappropriateType .. => return .directory
    | _ => return .missing

/-- The variables in a block of texts that end in a null character. -/
def parseVariables (block : String) : Keyed String String :=
  Keyed.ofEntries ((Text.split '\x00' block).filterMap fun entry =>
    let cs := entry.toList
    match cs.dropWhile (· ≠ '=') with
    | [] => none
    | _ :: value => some (String.ofList (cs.takeWhile (· ≠ '=')), String.ofList value))

/-- The variables of the environment, where the system shows them as a file. -/
def readVariables : IO (Keyed String String) := do
  try return parseVariables (← IO.FS.readFile "/proc/self/environ")
  catch _ => return []

end CommandGrammar

open CommandGrammar in
/-- Runs the tool. -/
def main (arguments : List String) : IO UInt32 := do
  let paths := match Tool.Request.read arguments with
    | .ok request => request.paths
    | .error _ => []
  let files ← paths.mapM fun path => return (path, ← readEntry path)
  let surroundings : Surroundings :=
    ⟨fun path => (files.lookup path).getD .missing, ← readVariables⟩
  let outcome := Tool.run "command-grammar" surroundings arguments
  IO.print outcome.output
  IO.eprint outcome.errors
  return outcome.code.toUInt32
