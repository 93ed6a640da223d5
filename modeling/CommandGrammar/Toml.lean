import CommandGrammar.Keyed
import CommandGrammar.Number.Notation

/-!
# TOML documents

A document is a tree of tables. How a table came to be decides what may still be added
to it: a header may open a table that until now was only passed through, and a dotted
key may add to tables that dotted keys have made, but nothing can be defined twice.
-/

namespace CommandGrammar

/-- How a table came to be. -/
inductive TableOrigin where
  /-- By a header of its own, or as the top of the document. -/
  | header
  /-- By a header of a table inside it. -/
  | passed
  /-- By a dotted key. -/
  | dotted
  /-- Between braces; nothing can be added. -/
  | inline
deriving DecidableEq, Repr

/-- A TOML value. -/
inductive Toml where
  /-- A text. -/
  | string (text : String)
  /-- A 64-bit integer. -/
  | integer (n : Int64)
  /-- A binary64 number. -/
  | float (x : Float)
  /-- A truth value. -/
  | bool (b : Bool)
  /-- A date, a time or both, as text. -/
  | moment (text : String)
  /-- Values between brackets. -/
  | array (items : List Toml)
  /-- Values under keys. -/
  | table (origin : TableOrigin) (entries : List (String × Toml))
  /-- Tables that were opened one by one under the same header, the latest first. -/
  | tables (latestFirst : List (List (String × Toml)))
deriving Inhabited

namespace Toml

/-- The entries of a table, in the order in which their keys were written first. -/
def table? : Toml → Option (List (String × Toml))
  | .table _ entries => some entries
  | _ => none

/-- The value reached through tables by keys. -/
def at? (value : Toml) : List String → Option Toml
  | [] => some value
  | key :: keys => do
    let entries ← value.table?
    (← Keyed.find? key entries).at? keys

/-- The text of a scalar. -/
def scalarText? : Toml → Option String
  | .string text => some text
  | .integer n => some (toString n.toInt)
  | .float x => some (Number.plain x)
  | .bool b => some (if b then "true" else "false")
  | .moment text => some text
  | .array _ | .table .. | .tables _ => none

end Toml

/-- The entries of a table under construction, in the order in which they were put there. -/
abbrev TomlEntries := List (String × Toml)

namespace TomlEntries

/-- Stores a value under a key: in place of the value that was there, or else at the end. -/
def put (key : String) (value : Toml) : TomlEntries → TomlEntries
  | [] => [(key, value)]
  | entry :: rest => if entry.1 = key then (key, value) :: rest else entry :: put key value rest

/-- Stores a value under a key at the end, and drops the value that was there. -/
def putLast (key : String) (value : Toml) (entries : TomlEntries) : TomlEntries :=
  entries.filter (·.1 != key) ++ [(key, value)]

/-- Changes the entries reached by keys, making tables on the way. The change is told how the
table it reached came to be. Dotted keys may not enter a table that has a header. -/
def change (dotted : Bool) (f : TableOrigin → TomlEntries → Option TomlEntries) :
    List String → TableOrigin → TomlEntries → Option TomlEntries
  | [], origin, entries => f origin entries
  | key :: keys, _, entries =>
    match Keyed.find? key entries with
    | none => do
      let origin : TableOrigin := if dotted then .dotted else .passed
      return put key (.table origin (← change dotted f keys origin [])) entries
    | some (.table origin inner) =>
      if origin = .inline ∨ (dotted ∧ origin = .header) then none
      else do
        return put key (.table origin (← change dotted f keys origin inner)) entries
    | some (.tables (latest :: earlier)) => do
      let latest ← change dotted f keys .header latest
      return put key (.tables (latest :: earlier)) entries
    | some _ => none

/-- Assigns a value to a key that is free. The keys before it name tables that dotted keys have
made, and a single key goes into the table itself. -/
def assign (path : List String) (value : Toml) (origin : TableOrigin) (entries : TomlEntries) :
    Option TomlEntries :=
  match path.getLast? with
  | none => none
  | some key =>
    let keys := path.dropLast
    change true (fun origin entries =>
      if (origin == .dotted) == keys.isEmpty then none
      else if (Keyed.find? key entries).isSome then none
      else some (put key value entries)) keys origin entries

end TomlEntries

/-- A statement of a document. -/
inductive TomlStatement where
  /-- A key, perhaps dotted, and its value. -/
  | assign (path : List String) (value : Toml)
  /-- The header of a table. -/
  | table (path : List String)
  /-- The header of the next table of several. -/
  | nextTable (path : List String)

/-- A document under construction: the finished part, and the table that assignments go to. -/
structure TomlDraft where
  /-- The finished part. -/
  root : TomlEntries
  /-- Where the open table belongs; the top of the document has no path. -/
  path : List String
  /-- The open table is one of several under its header. -/
  several : Bool
  /-- The open table. -/
  entries : TomlEntries

namespace TomlDraft

/-- The draft before the first statement. -/
def start : TomlDraft := ⟨[], [], false, []⟩

/-- Changes the entries of the table that holds the last key of a path. -/
def store (path : List String) (f : String → TomlEntries → Option TomlEntries)
    (root : TomlEntries) : Option TomlEntries :=
  match path.getLast? with
  | none => none
  | some key => TomlEntries.change false (fun _ => f key) path.dropLast .header root

/-- Puts tables under a key, given those that are there already. -/
def storeTables (path : List String) (f : List TomlEntries → List TomlEntries) :
    TomlEntries → Option TomlEntries :=
  store path fun key entries =>
    match Keyed.find? key entries with
    | none => some (entries.put key (.tables (f [])))
    | some (.tables earlier) => some (entries.put key (.tables (f earlier)))
    | some _ => none

/-- Puts the open table into the finished part. A table of its own comes last there, also if it
was passed through before. -/
def close (draft : TomlDraft) : Option TomlEntries :=
  if draft.path.isEmpty then some draft.entries
  else if draft.several then storeTables draft.path (draft.entries :: ·) draft.root
  else
    store draft.path (fun key entries =>
      some (entries.putLast key (.table .header draft.entries))) draft.root

/-- The entries that a table has when its header is met: those it was passed through with. -/
def openEntries (path : List String) (root : TomlEntries) : Option TomlEntries :=
  match path.getLast? with
  | none => none
  | some key =>
    let found (entries : TomlEntries) : Option TomlEntries :=
      match Keyed.find? key entries with
      | none => some []
      | some (.table .passed inner) => some inner
      | some _ => none
    let rec walk : List String → TomlEntries → Option TomlEntries
      | [], entries => found entries
      | key :: keys, entries =>
        match Keyed.find? key entries with
        | none => some []
        | some (.table .inline _) => none
        | some (.table _ inner) => walk keys inner
        | some (.tables (latest :: _)) => walk keys latest
        | some _ => none
    walk path.dropLast root

/-- Takes a statement into the draft, if it fits. -/
def add (draft : TomlDraft) : TomlStatement → Option TomlDraft
  | .assign path value => do
    return { draft with entries := ← TomlEntries.assign path value .header draft.entries }
  | .table path => do
    let root ← draft.close
    return ⟨root, path, false, ← openEntries path root⟩
  | .nextTable path => do
    let root ← draft.close
    return ⟨← storeTables path id root, path, true, []⟩

end TomlDraft

end CommandGrammar
