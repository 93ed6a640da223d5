import Mathlib
import CommandGrammar.Resolved

/-!
# Fields of invocations

An invocation stores one field for each declaration that occurs or has a default. No two
declarations of a command share a name, so none overwrites the field of another one, and what
is found under a name is the field of the declaration.
-/

namespace CommandGrammar

namespace Keyed

variable {κ α ι : Type} [Ord κ]

/-- Stores a value under a key, if there is one. -/
def store (key : κ) : Option α → Keyed κ α → Keyed κ α
  | some value, map => insert key value map
  | none, map => map

/-- Storing what there is keeps the keys in order. -/
theorem Ordered.store [Std.TransOrd κ] [Std.LawfulEqOrd κ] {map : Keyed κ α}
    (ordered : Ordered map) (key : κ) (value : Option α) : Ordered (store key value map) := by
  cases value with
  | none => exact ordered
  | some value => exact ordered.insert key value

/-- Storing what there is for several items keeps the keys in order. -/
theorem Ordered.storeAll [Std.TransOrd κ] [Std.LawfulEqOrd κ] {map : Keyed κ α}
    (ordered : Ordered map) (key : ι → κ) (value : ι → Option α) (items : List ι) :
    Ordered (items.foldl (fun map item => Keyed.store (key item) (value item) map) map) := by
  induction items generalizing map with
  | nil => exact ordered
  | cons item rest ih =>
    rw [List.foldl_cons]
    exact ih (ordered.store (key item) (value item))

/-- After storing what there is for several items, an entry is that of an item or was there
before. -/
theorem mem_storeAll {key : ι → κ} {value : ι → Option α} {items : List ι} {map : Keyed κ α}
    {entry : κ × α}
    (member : entry ∈ items.foldl (fun map item => store (key item) (value item) map) map) :
    (∃ item ∈ items, key item = entry.1 ∧ value item = some entry.2) ∨ entry ∈ map := by
  induction items generalizing map with
  | nil => exact .inr member
  | cons item rest ih =>
    rcases ih member with later | before
    · obtain ⟨other, inside, own⟩ := later
      exact .inl ⟨other, List.mem_cons_of_mem _ inside, own⟩
    · cases new : value item with
      | none => exact .inr (by simpa [store, new] using before)
      | some fresh =>
        simp only [store, new] at before
        rcases mem_insert before with rfl | old
        · exact .inl ⟨item, List.mem_cons_self, rfl, new⟩
        · exact .inr old

variable [Std.LawfulEqOrd κ] [DecidableEq κ]

/-- Storing what there is under one key leaves every other key as it was. -/
theorem find?_store_of_ne {key other : κ} (differs : other ≠ key) (value : Option α)
    (map : Keyed κ α) : find? other (store key value map) = find? other map := by
  cases value with
  | none => rfl
  | some value => exact find?_insert_of_ne differs value map

/-- What is stored under a key that was free is found. -/
theorem find?_store_self {key : κ} {map : Keyed κ α} (free : find? key map = none)
    (value : Option α) : find? key (store key value map) = value := by
  cases value with
  | none => exact free
  | some value => exact find?_insert_self key value map

/-- Storing what there is for several items leaves a key that is none of theirs as it was. -/
theorem find?_storeAll_of_ne {key : ι → κ} {other : κ} {items : List ι}
    (differs : ∀ item ∈ items, key item ≠ other) (value : ι → Option α) (map : Keyed κ α) :
    find? other (items.foldl (fun map item => store (key item) (value item) map) map) =
      find? other map := by
  induction items generalizing map with
  | nil => rfl
  | cons item rest ih =>
    rw [List.foldl_cons, ih fun item member => differs item (List.mem_cons_of_mem _ member)]
    exact find?_store_of_ne (differs item List.mem_cons_self).symm _ map

/-- What is stored for items with different keys is found under the key of each. -/
theorem find?_storeAll {key : ι → κ} {items : List ι} (distinct : (items.map key).Nodup)
    {item : ι} (member : item ∈ items) (value : ι → Option α) {map : Keyed κ α}
    (free : ∀ item ∈ items, find? (key item) map = none) :
    find? (key item) (items.foldl (fun map item => store (key item) (value item) map) map) =
      value item := by
  induction items generalizing map with
  | nil => cases member
  | cons head rest ih =>
    obtain ⟨new, distinct⟩ := List.nodup_cons.1 distinct
    have apart : ∀ other ∈ rest, key other ≠ key head := fun other later same =>
      new (same ▸ List.mem_map_of_mem later)
    rw [List.foldl_cons]
    rcases List.mem_cons.1 member with rfl | later
    · rw [find?_storeAll_of_ne apart]
      exact find?_store_self (free item List.mem_cons_self) _
    · refine ih distinct later fun other inside => ?_
      rw [find?_store_of_ne (apart other inside)]
      exact free other (List.mem_cons_of_mem _ inside)

end Keyed

namespace Model

variable {model : Model} {defaults : Defaults} {command : Node} {occurrences : Occurrences}

/-- The fields of an invocation are stored one after the other. -/
theorem fields_invocation (model : Model) (defaults : Defaults) (command : Node)
    (occurrences : Occurrences) : (model.invocation defaults command occurrences).fields =
      (model.nodesOf command.declared).foldl (fun fields node =>
        Keyed.store node.name (fieldOf? defaults occurrences node) fields) [] := by
  refine congrArg (fun step => List.foldl step [] (model.nodesOf command.declared))
    (funext fun fields => funext fun node => ?_)
  cases fieldOf? defaults occurrences node with
  | none => rfl
  | some field => rfl

/-- The fields of an invocation are in the order of their names. -/
theorem ordered_invocation (model : Model) (defaults : Defaults) (command : Node)
    (occurrences : Occurrences) :
    Keyed.Ordered (model.invocation defaults command occurrences).fields := by
  have empty : Keyed.Ordered ([] : Keyed String Field) := List.Pairwise.nil
  rw [fields_invocation]
  exact empty.storeAll _ _ _

/-- A field of an invocation is the field of a declaration, under its name. -/
theorem mem_fields_invocation {field : String × Field}
    (member : field ∈ (model.invocation defaults command occurrences).fields) :
    ∃ node ∈ model.nodesOf command.declared, node.name = field.1 ∧
      fieldOf? defaults occurrences node = some field.2 := by
  rw [fields_invocation] at member
  rcases Keyed.mem_storeAll member with own | before
  · exact own
  · cases before

/-- What an invocation has under the name of a declaration is the field of the declaration. -/
theorem field?_invocation (distinct : ((model.nodesOf command.declared).map Node.name).Nodup)
    {node : Node} (member : node ∈ model.nodesOf command.declared) :
    (model.invocation defaults command occurrences).field? node.name =
      fieldOf? defaults occurrences node := by
  rw [Resolved.field?, fields_invocation]
  exact Keyed.find?_storeAll distinct member _ fun _ _ => rfl

/-- An invocation has nothing under the name of no declaration. -/
theorem field?_invocation_of_ne {name : String}
    (differs : ∀ node ∈ model.nodesOf command.declared, node.name ≠ name) :
    (model.invocation defaults command occurrences).field? name = none := by
  rw [Resolved.field?, fields_invocation]
  exact Keyed.find?_storeAll_of_ne differs _ []

end Model

end CommandGrammar
