import CommandGrammar.Keyed

/-!
# Surroundings

What lies outside the program is given as data: the files under their paths and the
variables of the environment. Reading a file as text fails for three reasons.
-/

namespace CommandGrammar

/-- What a path leads to. -/
inductive Entry where
  /-- Nothing. -/
  | missing
  /-- A directory. -/
  | directory
  /-- A file with its bytes. -/
  | file (bytes : ByteArray)

/-- Files by path, and the variables of the environment by name. -/
structure Surroundings where
  /-- What each path leads to. -/
  entry : String → Entry
  /-- The variables of the environment. -/
  environment : Keyed String String

/-- Why a file cannot be read as text. -/
inductive FileFault where
  /-- The path leads to nothing. -/
  | notFound
  /-- The path leads to a directory. -/
  | isDirectory
  /-- The bytes are no UTF-8 text. -/
  | notText
deriving DecidableEq, Repr

/-- The wording of a fault. -/
def FileFault.message : FileFault → String
  | .notFound => "No such file or directory (os error 2)"
  | .isDirectory => "Is a directory (os error 21)"
  | .notText => "stream did not contain valid UTF-8"

namespace Entry

/-- The path leads somewhere. -/
def isPresent : Entry → Bool
  | .missing => false
  | .directory | .file _ => true

/-- The text of a file. -/
def readText : Entry → Except FileFault String
  | .missing => .error .notFound
  | .directory => .error .isDirectory
  | .file bytes => match String.fromUTF8? bytes with
    | some text => .ok text
    | none => .error .notText

end Entry

end CommandGrammar
