import Mathlib
import CommandGrammar.Proofs.Keyed
import CommandGrammar.Proofs.Value.Paths

/-!
# Leaves of values

A leaf is what is reached through maps and is no map itself. A plain value has keys that a dotted
path can have, so its leaf paths are the paths that lead to leaves.
-/

namespace CommandGrammar

mutual

/-- Every map of a value is in order, and its keys are such as a dotted path can have. Inside
lists nothing is asked. -/
def Value.IsPlain : Value → Prop
  | .map entries => Keyed.Ordered entries ∧ EntriesPlain entries
  | .bool _ | .integer _ | .float _ | .string _ | .list _ => True

/-- The keys of entries are such as a dotted path can have, and their values are plain. -/
def EntriesPlain : List (String × Value) → Prop
  | [] => True
  | (key, value) :: rest => IsKey key ∧ value.IsPlain ∧ EntriesPlain rest

end

/-- Entries are plain exactly if each of them is. -/
theorem entriesPlain_iff {entries : List (String × Value)} :
    EntriesPlain entries ↔ ∀ entry ∈ entries, IsKey entry.1 ∧ entry.2.IsPlain := by
  induction entries with
  | nil => simp [EntriesPlain]
  | cons entry rest ih => rw [EntriesPlain, ih, List.forall_mem_cons, and_assoc]

/-- Storing a plain value under a key keeps a map plain. -/
theorem Value.IsPlain.insert {entries : List (String × Value)} {key : String} {value : Value}
    (plain : (Value.map entries).IsPlain) (keyed : IsKey key) (inner : value.IsPlain) :
    (Value.map (Keyed.insert key value entries)).IsPlain := by
  refine ⟨plain.1.insert key value, entriesPlain_iff.2 fun entry member => ?_⟩
  rcases Keyed.mem_insert member with same | old
  · exact same ▸ ⟨keyed, inner⟩
  · exact entriesPlain_iff.1 plain.2 entry old

/-- The empty map is plain. -/
theorem Value.isPlain_empty : (Value.map []).IsPlain := ⟨List.Pairwise.nil, trivial⟩

namespace Value

variable {value : Value} {entries : List (String × Value)} {key : String} {keys : List String}

/-- A value is a map or has no entries. -/
theorem eq_map_or_leaf (value : Value) : (∃ entries, value = .map entries) ∨ value.map? = none := by
  cases value with
  | map entries => exact .inl ⟨entries, rfl⟩
  | _ => exact .inr rfl

/-- What holds of values without entries, and of a map if it holds of what the map has under its
keys, holds of every value. -/
theorem induction_on_entries {motive : Value → Prop}
    (leaf : ∀ value, value.map? = none → motive value)
    (map : ∀ entries, (∀ key inner, Keyed.find? key entries = some inner → motive inner) →
      motive (.map entries)) (value : Value) : motive value := by
  obtain ⟨entries, same⟩ | form := value.eq_map_or_leaf
  · rw [same]
    refine map entries fun key inner found => ?_
    have smaller := List.sizeOf_lt_of_mem (Keyed.mem_of_find? found)
    exact induction_on_entries leaf map inner
  · exact leaf value form
termination_by sizeOf value
decreasing_by
  rw [same, Value.map.sizeOf_spec]
  rw [Prod.mk.sizeOf_spec] at smaller
  omega

/-- What a plain map has under a key is plain, and so is the key. -/
theorem IsPlain.find? (plain : (Value.map entries).IsPlain)
    (found : Keyed.find? key entries = some value) : IsKey key ∧ value.IsPlain :=
  entriesPlain_iff.1 plain.2 _ (Keyed.mem_of_find? found)

/-- What a map has under keys is what its entry has under the keys that follow. -/
theorem at?_map_cons : (Value.map entries).at? (key :: keys) =
    (Keyed.find? key entries).bind (·.at? keys) :=
  rfl

/-- A value that is no map has nothing inside. -/
theorem at?_cons_of_leaf (leaf : value.map? = none) : value.at? (key :: keys) = none := by
  rw [at?, leaf]
  rfl

/-- Keys are followed one after the other. -/
theorem at?_append (value : Value) (above below : List String) :
    value.at? (above ++ below) = (value.at? above).bind (·.at? below) := by
  induction above generalizing value with
  | nil => rfl
  | cons key rest ih =>
    rw [List.cons_append]
    obtain ⟨entries, rfl⟩ | leaf := value.eq_map_or_leaf
    · rw [at?_map_cons, at?_map_cons]
      cases Keyed.find? key entries with
      | none => rfl
      | some inner => exact ih inner
    · rw [at?_cons_of_leaf leaf, at?_cons_of_leaf leaf]
      rfl

/-- Below an empty map there is nothing. -/
theorem at?_empty (some_key : keys ≠ []) : (Value.map []).at? keys = none := by
  cases keys with
  | nil => exact absurd rfl some_key
  | cons key keys => rfl

/-- The leaf reached by keys. -/
def leaf? (value : Value) (keys : List String) : Option Value :=
  (value.at? keys).filter (·.map?.isNone)

/-- A map is no leaf. -/
theorem leaf?_map_nil : (Value.map entries).leaf? [] = none := rfl

/-- The leaves of a map are those of its entries. -/
theorem leaf?_map_cons : (Value.map entries).leaf? (key :: keys) =
    (Keyed.find? key entries).bind (·.leaf? keys) := by
  simp only [leaf?, at?, map?, Option.bind_eq_bind, Option.bind_some]
  cases Keyed.find? key entries with
  | none => rfl
  | some inner => rfl

/-- A value that is no map has no leaves inside. -/
theorem leaf?_cons (leaf : value.map? = none) : value.leaf? (key :: keys) = none := by
  simp [leaf?, at?, leaf]

/-- A leaf is what its keys lead to. -/
theorem at?_of_leaf? {leaf : Value} (found : value.leaf? keys = some leaf) :
    value.at? keys = some leaf :=
  (Option.filter_eq_some_iff.1 found).1

/-- What keys lead to has the leaves that lie beyond them. -/
theorem leaf?_append {inner : Value} {above below : List String}
    (found : value.at? above = some inner) : value.leaf? (above ++ below) = inner.leaf? below := by
  rw [leaf?, at?_append, found, Option.bind_some, leaf?]

/-- The keys to a leaf of a plain value are such as a dotted path can have. -/
theorem isKey_of_leaf? (plain : value.IsPlain) (found : (value.leaf? keys).isSome = true) :
    ∀ key ∈ keys, IsKey key := by
  induction keys generalizing value with
  | nil => simp
  | cons key rest ih =>
    obtain ⟨entries, rfl⟩ | form := value.eq_map_or_leaf
    · rw [leaf?_map_cons] at found
      cases next : Keyed.find? key entries with
      | none =>
        rw [next] at found
        cases found
      | some inner =>
        rw [next] at found
        obtain ⟨own, later⟩ := plain.find? next
        exact List.forall_mem_cons.2 ⟨own, ih later found⟩
    · rw [leaf?_cons form] at found
      cases found

/-! ## Leaf paths -/

/-- A path of keys is empty only if there are none. -/
theorem join_eq_empty_iff (keyed : ∀ key ∈ keys, IsKey key) :
    Text.join "." keys = "" ↔ keys = [] := by
  constructor
  · intro empty
    by_contra some_key
    have segments := Text.segments_join some_key fun key member => (keyed key member).2
    rw [empty] at segments
    have nothing : Text.segments "" = [""] := by decide
    have member : "" ∈ keys := segments ▸ nothing ▸ List.mem_singleton_self ""
    exact (keyed "" member).1 rfl
  · intro nothing
    rw [nothing]
    rfl

/-- The only leaf path of a value that is no map is the path to it, if that has a key. -/
theorem mem_leavesBelow_leaf (leaf : value.map? = none) (keyed : ∀ key ∈ keys, IsKey key)
    {path : String} : path ∈ value.leavesBelow (Text.join "." keys) ↔
      keys ≠ [] ∧ path = Text.join "." keys := by
  have form : value.leavesBelow (Text.join "." keys) =
      if Text.join "." keys = "" then [] else [Text.join "." keys] := by
    cases value with
    | map entries => cases leaf
    | _ => rfl
  rw [form]
  by_cases nothing : keys = []
  · simp [nothing, Text.join]
  · have filled : Text.join "." keys ≠ "" := fun empty =>
      nothing ((join_eq_empty_iff keyed).1 empty)
    rw [if_neg filled, List.mem_singleton]
    exact ⟨fun same => ⟨nothing, same⟩, And.right⟩

mutual

/-- The leaf paths below a path of keys are the extensions of it that lead to leaves. -/
theorem mem_leavesBelow_iff (value : Value) (plain : value.IsPlain) {above : List String}
    (keyed : ∀ key ∈ above, IsKey key) {path : String} :
    path ∈ value.leavesBelow (Text.join "." above) ↔
      ∃ keys, (value.leaf? keys).isSome = true ∧ above ++ keys ≠ [] ∧
        path = Text.join "." (above ++ keys) := by
  cases value with
  | map entries =>
    rw [leavesBelow, mem_entriesBelow_iff entries plain.2 keyed]
    constructor
    · intro below
      obtain ⟨⟨key, inner⟩, member, keys, leaf, same⟩ := below
      refine ⟨key :: keys, ?_, by simp, same⟩
      rw [leaf?_map_cons, Keyed.find?_of_mem plain.1 member]
      exact leaf
    · intro reached
      obtain ⟨keys, leaf, _, same⟩ := reached
      cases keys with
      | nil => cases leaf
      | cons key keys =>
        rw [leaf?_map_cons] at leaf
        cases found : Keyed.find? key entries with
        | none =>
          rw [found] at leaf
          cases leaf
        | some inner =>
          rw [found] at leaf
          exact ⟨(key, inner), Keyed.mem_of_find? found, keys, leaf, same⟩
  | bool | integer | float | string | list =>
    refine (mem_leavesBelow_leaf rfl keyed).trans ?_
    constructor
    · intro own
      exact ⟨[], rfl, by simpa using own⟩
    · intro reached
      obtain ⟨keys, leaf, own⟩ := reached
      cases keys with
      | nil => simpa using own
      | cons key keys =>
        rw [leaf?_cons rfl] at leaf
        cases leaf

/-- The leaf paths of entries are those of their values, below the keys. -/
theorem mem_entriesBelow_iff (entries : List (String × Value)) (plain : EntriesPlain entries)
    {above : List String} (keyed : ∀ key ∈ above, IsKey key) {path : String} :
    path ∈ entriesBelow (Text.join "." above) entries ↔
      ∃ entry ∈ entries, ∃ keys, (entry.2.leaf? keys).isSome = true ∧
        path = Text.join "." (above ++ entry.1 :: keys) := by
  cases entries with
  | nil => simp [entriesBelow]
  | cons entry rest =>
    obtain ⟨key, inner⟩ := entry
    obtain ⟨own, innerPlain, restPlain⟩ := plain
    have longer : ∀ other ∈ above ++ [key], IsKey other := by
      intro other member
      rcases List.mem_append.1 member with old | new
      · exact keyed other old
      · exact List.mem_singleton.1 new ▸ own
    have extended := extendPath_join (fun other member => (keyed other member).1) key
    rw [entriesBelow, List.mem_append, extended, mem_leavesBelow_iff inner innerPlain longer,
      mem_entriesBelow_iff rest restPlain keyed]
    simp [List.append_assoc]

end

/-- A path is a leaf path of a plain value exactly if its segments lead to a leaf. -/
theorem mem_leafPaths_iff (plain : value.IsPlain) {path : String} :
    path ∈ value.leafPaths ↔ (value.leaf? (Text.segments path)).isSome = true := by
  have top := @mem_leavesBelow_iff value plain [] (by simp) path
  rw [leafPaths]
  refine top.trans ?_
  constructor
  · intro reached
    obtain ⟨keys, leaf, some_key, same⟩ := reached
    have free : ∀ key ∈ keys, '.' ∉ key.toList := fun key member =>
      (isKey_of_leaf? plain leaf key member).2
    rw [List.nil_append] at some_key same
    rw [same, Text.segments_join some_key free]
    exact leaf
  · intro leaf
    exact ⟨_, leaf, Text.segments_ne_nil path, (Text.join_segments path).symm⟩

end Value

end CommandGrammar
