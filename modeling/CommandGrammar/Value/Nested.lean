import CommandGrammar.Value

/-!
# Settings as nested maps

Settings are collected as pairs of a dotted path and a value and kept as nested
maps. A later setting replaces what is in its way: a value by a map when it lies
on the path, and a map by a value when it is the path.
-/

namespace CommandGrammar

/-- Stores a value under a path of keys, making maps on the way. -/
def storeAt (value : Value) : List String → Keyed String Value → Keyed String Value
  | [], entries => entries
  | [key], entries => Keyed.insert key value entries
  | key :: next :: keys, entries =>
    let inner := ((Keyed.find? key entries).bind Value.map?).getD []
    Keyed.insert key (.map (storeAt value (next :: keys) inner)) entries

/-- The nested map of settings, stored one after the other. -/
def Value.nest (settings : List (String × Value)) : Value :=
  .map (settings.foldl (fun entries setting =>
    storeAt setting.2 (Text.segments setting.1) entries) [])

/-- A key below a dotted path; the empty path is the top. -/
def extendPath (path key : String) : String :=
  if path = "" then key else path ++ "." ++ key

mutual

/-- The dotted paths below a path at which a value has no map, in key order. -/
def Value.leavesBelow (path : String) : Value → List String
  | .map entries => entriesBelow path entries
  | _ => if path = "" then [] else [path]

/-- The leaves of the entries of one map. -/
def entriesBelow (path : String) : List (String × Value) → List String
  | [] => []
  | (key, value) :: rest => value.leavesBelow (extendPath path key) ++ entriesBelow path rest

end

/-- The dotted paths of a value's leaves; lists are leaves. -/
def Value.leafPaths (value : Value) : List String := value.leavesBelow ""

end CommandGrammar
