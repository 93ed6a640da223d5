import CommandGrammar.Layer.Fault
import CommandGrammar.Text.Uppercase
import CommandGrammar.Value.Nested

/-!
# Settings in variables

A parameter is looked up under a variable whose name joins a prefix and the
parameter's path, in upper case. The text of a parameter that collects is a list
of items between commas.
-/

namespace CommandGrammar

/-- The name of the variable for a path: the nonempty parts of prefix and path, joined by
underscores, with dashes turned into underscores and letters into upper case. -/
def variableName (stem : String) (path : List String) : String :=
  let joined := Text.join "_" ((stem :: path).filter (· != ""))
  Text.uppercase (String.ofList (joined.toList.map fun c => if c = '-' then '_' else c))

/-- The items between the commas of a text, trimmed; blank ones are left out. -/
def commaItems (raw : String) : List String :=
  ((Text.split ',' raw).map Text.trim).filter (· != "")

/-- Decodes one text of a layer. -/
def Node.decodeFrom (node : Node) (source key raw : String) : Except LayerFault Value :=
  (node.decode raw).mapError fun fault => .undecodable ⟨source, key, raw, fault⟩

/-- Decodes the text of a variable: item by item for a parameter that collects, else whole. -/
def Node.decodeVariable (node : Node) (source key raw : String) : Except LayerFault Value :=
  if node.collects then
    ((commaItems raw).mapM (node.decodeFrom source key)).map .list
  else node.decodeFrom source key raw

namespace Model

/-- The settings found in variables, in the order of the parameters, up to the first fault. -/
def settingsIn (model : Model) (source stem : String) (bindings : Keyed String String) :
    List (String × Node) → Except LayerFault (List (String × Value))
  | [] => .ok []
  | (path, node) :: rest => do
    let key := variableName stem (Text.segments path)
    match Keyed.find? key bindings with
    | none => settingsIn model source stem bindings rest
    | some raw =>
      let value ← node.decodeVariable source key raw
      let others ← settingsIn model source stem bindings rest
      return (path, value) :: others

/-- The layer of settings in variables. -/
def readVariables (model : Model) (source stem : String) (bindings : Keyed String String) :
    Except LayerFault Value := do
  return .nest (← model.settingsIn source stem bindings model.fieldPaths)

end Model

end CommandGrammar
