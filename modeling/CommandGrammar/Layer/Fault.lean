import CommandGrammar.App
import CommandGrammar.Layer.File

/-!
# Faults of layers

Every way in which a layer of settings can fail to be read. The wording of syntax
errors in configuration files says which syntax was broken and no more.
-/

namespace CommandGrammar

/-- A text of a layer that its parameter cannot decode. -/
structure LayerUndecodable where
  /-- The layer. -/
  source : String
  /-- The variable or dotted path that held the text. -/
  key : String
  /-- The text, or the item of it, at fault. -/
  raw : String
  /-- Why it has no value. -/
  fault : DecodeFault
deriving DecidableEq, Repr

/-- The wording of an undecodable text. -/
def LayerUndecodable.message (fault : LayerUndecodable) : String :=
  "cannot decode " ++ fault.key ++ " = " ++ Text.escaped fault.raw ++ " from " ++ fault.source ++
    ": " ++ fault.fault.message

/-- Why settings cannot be read. -/
inductive LayerFault where
  /-- A file cannot be read. -/
  | file (fault : FileFault)
  /-- A file breaks the syntax of TOML. -/
  | toml
  /-- A file of variables cannot be read or breaks their syntax. -/
  | dotenv
  /-- The command line or the schema fails. -/
  | engine (failure : Failure)
  /-- A text cannot be decoded. -/
  | undecodable (fault : LayerUndecodable)
  /-- A required file is missing. -/
  | missingFile (path : String)
  /-- There is no layer. -/
  | noSources
deriving DecidableEq, Repr

/-- The wording of a fault. -/
def LayerFault.message : LayerFault → String
  | .file fault => "I/O error: " ++ fault.message
  | .toml => "TOML error"
  | .dotenv => "dotenv error"
  | .engine failure => "command line error: " ++ failure.message
  | .undecodable fault => fault.message
  | .missingFile path => "required configuration file not found: " ++ path
  | .noSources => "no configuration sources available"

end CommandGrammar
