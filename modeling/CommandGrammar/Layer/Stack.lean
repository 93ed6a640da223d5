import CommandGrammar.Layer
import CommandGrammar.Value.Merge

/-!
# Stacks of layers

A stack reads its layers in order and merges them: a layer that comes first wins, and
later ones fill the gaps. For every leaf path the first layer that has a leaf there
is recorded as its origin.
-/

namespace CommandGrammar

/-- The layer that a leaf comes from. -/
structure Origin where
  /-- The name of the layer. -/
  source : String
  /-- Its place in the stack. -/
  layer : Nat
deriving DecidableEq, Repr

/-- Merged settings and the origins of their leaves by dotted path. -/
structure Resolution where
  /-- The settings. -/
  value : Value
  /-- The origins, in the order of the paths. -/
  origins : Keyed String Origin

/-- A command tree and its layers, the first one winning. -/
structure Stack where
  /-- The nodes of the tree. -/
  model : Model
  /-- The layers. -/
  sources : List Source

namespace Stack

/-- The stack of a schema; the declared defaults come last, unless they are left out. -/
def ofSchema (schema : Command) (sources : List Source) (withDefaults : Bool) :
    Except LayerFault Stack := do
  let model ← (Model.ofSchema schema).mapError fun fault => .engine (.schema fault)
  let sources := if withDefaults then sources ++ [.defaults] else sources
  if sources.isEmpty then throw .noSources
  return ⟨model, sources⟩

/-- The names of the layers. -/
def layers (stack : Stack) : List String := stack.sources.map Source.name

/-- Records a layer as the origin of leaf paths that have none yet. -/
def recordOrigins (origin : Origin) (paths : List String) (origins : Keyed String Origin) :
    Keyed String Origin :=
  paths.foldl (fun origins path => Keyed.insertNew path origin origins) origins

/-- Reads layers from a place on and merges them into what the earlier ones gave. -/
def readFrom (model : Model) (surroundings : Surroundings) :
    Nat → List Source → Resolution → Except LayerFault Resolution
  | _, [], resolution => .ok resolution
  | layer, source :: rest, resolution => do
    let value ← model.read surroundings source
    readFrom model surroundings (layer + 1) rest
      ⟨resolution.value.merge .preferBase value,
        recordOrigins ⟨source.name, layer⟩ value.leafPaths resolution.origins⟩

/-- Reads and merges all layers, up to the first fault. -/
def read (stack : Stack) (surroundings : Surroundings) : Except LayerFault Resolution :=
  readFrom stack.model surroundings 0 stack.sources ⟨.map [], []⟩

/-- A one-line description of a stack. -/
def summary (stack : Stack) : String :=
  "Layered \x7b command: " ++ Text.escaped stack.model.root.name ++ ", layers: [" ++
    Text.join ", " (stack.layers.map Text.escaped) ++ "] \x7d"

end Stack

end CommandGrammar
