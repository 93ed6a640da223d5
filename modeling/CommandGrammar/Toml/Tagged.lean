import CommandGrammar.Toml
import CommandGrammar.Toml.Moment

/-!
# Tagged tables

A table may stand for a moment: its first key is the tag of moments, and the text under
that key is the moment. What else the table holds is dropped. A document in which the tag
comes first and no moment follows cannot be read. At the top of a document the tag is a
key like any other.
-/

namespace CommandGrammar.Toml

/-- The key that makes a table stand for a moment. -/
def momentTag : String := "$__toml_private_datetime"

mutual

/-- A value with moments in place of tagged tables. -/
def untagged? : Toml → Option Toml
  | .table origin entries => untaggedTable? origin entries
  | .array items => (untaggedItems? items).map .array
  | .tables latestFirst => (untaggedTables? latestFirst).map fun items => .array items.reverse
  | scalar => some scalar

/-- A table, or the moment that it stands for. -/
def untaggedTable? (origin : TableOrigin) : List (String × Toml) → Option Toml
  | [] => some (.table origin [])
  | (key, value) :: rest =>
    if key = momentTag then
      match value with
      | .string text => (momentOf? text.toList).map .moment
      | _ => none
    else do
      let first := (key, ← untagged? value)
      return .table origin (first :: (← untaggedEntries? rest))

/-- Entries with moments in place of tagged tables. -/
def untaggedEntries? : List (String × Toml) → Option (List (String × Toml))
  | [] => some []
  | (key, value) :: rest => do
    let first := (key, ← untagged? value)
    return first :: (← untaggedEntries? rest)

/-- Items with moments in place of tagged tables. -/
def untaggedItems? : List Toml → Option (List Toml)
  | [] => some []
  | item :: rest => do
    let first ← untagged? item
    return first :: (← untaggedItems? rest)

/-- Tables, or the moments that they stand for. -/
def untaggedTables? : List (List (String × Toml)) → Option (List Toml)
  | [] => some []
  | entries :: rest => do
    let first ← untaggedTable? .header entries
    return first :: (← untaggedTables? rest)

end

/-- The document of statements, if they fit together and every tag is followed by a moment. -/
def ofStatements? (statements : List TomlStatement) : Option Toml := do
  let draft ← statements.foldlM TomlDraft.add TomlDraft.start
  return .table .header (← untaggedEntries? (← draft.close))

end CommandGrammar.Toml
