import CommandGrammar.Value

/-!
# Merging values

Two values are merged as trees: maps key by key at every level, and any other
pair by the strategy. Under the strategy that prefers the base, a chain of merges
gives each key path the first value that any layer has there.
-/

namespace CommandGrammar

/-- What to do with two values that are not both maps. -/
inductive MergeStrategy where
  /-- Keep the base. -/
  | preferBase
  /-- Take the overlay. -/
  | preferOverlay
  /-- Append to a list the items of another that it lacks; otherwise take the overlay. -/
  | union
deriving DecidableEq, Repr

/-- Appends the items that a list does not hold yet. -/
def appendNew (items : List Value) : List Value → List Value
  | [] => items
  | item :: rest =>
    if items.any (·.same item) then appendNew items rest else appendNew (items ++ [item]) rest

/-- The value that stands for two values that are not both maps. -/
def MergeStrategy.choose (strategy : MergeStrategy) (base overlay : Value) : Value :=
  match strategy, base, overlay with
  | .preferBase, base, _ => base
  | .union, .list items, .list more => .list (appendNew items more)
  | _, _, overlay => overlay

mutual

/-- Merges an overlay into a base. -/
def Value.merge (strategy : MergeStrategy) (base : Value) : Value → Value
  | .map overlay =>
    match base with
    | .map entries => .map (mergeEntries strategy entries overlay entries)
    | _ => strategy.choose base (.map overlay)
  | .bool b => strategy.choose base (.bool b)
  | .integer n => strategy.choose base (.integer n)
  | .float x => strategy.choose base (.float x)
  | .string text => strategy.choose base (.string text)
  | .list items => strategy.choose base (.list items)

/-- Stores the entries of an overlay in a map, each merged with what the base has under its key. -/
def mergeEntries (strategy : MergeStrategy) (base : List (String × Value)) :
    List (String × Value) → List (String × Value) → List (String × Value)
  | [], merged => merged
  | (key, value) :: rest, merged =>
    let value := match Keyed.find? key base with
      | some old => old.merge strategy value
      | none => value
    mergeEntries strategy base rest (Keyed.insert key value merged)

end

end CommandGrammar
