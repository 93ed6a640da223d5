import CommandGrammar.Layer.Stack
import CommandGrammar.Value.Document

/-!
# Resolutions as documents

A resolution is written with its settings and, under each dotted path, the layer that
the leaf comes from.
-/

namespace CommandGrammar

/-- The document of an origin. -/
def Origin.toJson (origin : Origin) : Json :=
  .object [("source", .string origin.source), ("layer", .integer origin.layer)]

/-- The document of a resolution. -/
def Resolution.toJson (resolution : Resolution) : Json :=
  .object [("value", resolution.value.toJson),
    ("origins", .object (resolution.origins.map fun (path, origin) => (path, origin.toJson)))]

end CommandGrammar
