import Mathlib
import CommandGrammar.Proofs.Value.Merge

/-!
# Stored settings

A setting stored under a path of keys is found there, and what is stored under a path apart from it
stays as it was. Merged into a base that has room for it, a setting is found in the merged value,
and the leaves of the base stay whatever is merged into it.
-/

namespace CommandGrammar

/-- Neither of two paths of keys leads on from the other one. -/
structure Apart (first second : List String) : Prop where
  /-- The second does not lead on from the first. -/
  before : ¬first <+: second
  /-- The first does not lead on from the second. -/
  after : ¬second <+: first

/-- Paths with the same first key are apart if they are after it. -/
theorem Apart.tail {key : String} {first second : List String}
    (apart : Apart (key :: first) (key :: second)) : Apart first second := by
  constructor
  · intro before
    exact apart.before ((List.prefix_cons_inj key).2 before)
  · intro after
    exact apart.after ((List.prefix_cons_inj key).2 after)

namespace Value

variable {value base overlay leaf : Value} {entries more : List (String × Value)}
  {key : String} {keys stored : List String}

/-- The entries that a map has under a key to store further into. -/
def under (key : String) (entries : List (String × Value)) : List (String × Value) :=
  ((Keyed.find? key entries).bind map?).getD []

/-- What is below a key of a map is what the key leads to. -/
theorem at?_under (some_key : keys ≠ []) :
    (Value.map (under key entries)).at? keys = (Value.map entries).at? (key :: keys) := by
  rw [at?_map_cons, under]
  cases found : Keyed.find? key entries with
  | none => exact at?_empty some_key
  | some old =>
    obtain ⟨inner, rfl⟩ | form := old.eq_map_or_leaf
    · rfl
    · obtain ⟨next, rest, rfl⟩ := List.exists_cons_of_ne_nil some_key
      rw [Option.bind_some, Option.bind_some, form, at?_cons_of_leaf form]
      rfl

/-- Storing under a path changes the entry of its first key. -/
theorem storeAt_cons (value : Value) (key : String) (rest : List String)
    (entries : List (String × Value)) : storeAt value (key :: rest) entries =
      Keyed.insert key (if rest = [] then value else .map (storeAt value rest (under key entries)))
        entries := by
  cases rest with
  | nil => rfl
  | cons next more => rw [storeAt, if_neg (List.cons_ne_nil next more), under]

/-- What is stored under a path is found there. -/
theorem at?_storeAt_self (some_key : keys ≠ []) :
    (Value.map (storeAt value keys entries)).at? keys = some value := by
  induction keys generalizing entries with
  | nil => exact absurd rfl some_key
  | cons key rest ih =>
    rw [storeAt_cons, at?_map_cons, Keyed.find?_insert_self, Option.bind_some]
    by_cases last : rest = []
    · rw [if_pos last, last]
      rfl
    · rw [if_neg last]
      exact ih last

/-- What stands under a path is not changed by storing apart from it. -/
theorem at?_storeAt_of_apart (apart : Apart stored keys) :
    (Value.map (storeAt value stored entries)).at? keys = (Value.map entries).at? keys := by
  induction stored generalizing entries keys with
  | nil => exact absurd List.nil_prefix apart.before
  | cons key rest ih =>
    cases keys with
    | nil => exact absurd List.nil_prefix apart.after
    | cons other keys =>
      rw [storeAt_cons]
      by_cases same : other = key
      · subst same
        have rest_apart := apart.tail
        have more : rest ≠ [] := fun last => rest_apart.before (last ▸ List.nil_prefix)
        have some_key : keys ≠ [] := fun last => rest_apart.after (last ▸ List.nil_prefix)
        rw [at?_map_cons, Keyed.find?_insert_self, Option.bind_some, if_neg more, ih rest_apart,
          at?_under some_key]
      · rw [at?_map_cons, at?_map_cons, Keyed.find?_insert_of_ne same]

/-- Nothing is below a key to store further into but what was stored there. -/
theorem under_insert_self (key : String) (more entries : List (String × Value)) :
    under key (Keyed.insert key (.map more) entries) = more := by
  rw [under, Keyed.find?_insert_self]
  rfl

/-- Storing under another key changes nothing below a key. -/
theorem under_insert_of_ne {other : String} (differs : key ≠ other) (value : Value)
    (entries : List (String × Value)) :
    under key (Keyed.insert other value entries) = under key entries := by
  rw [under, under, Keyed.find?_insert_of_ne differs]

/-- Values are stored under paths that are apart in any order. -/
theorem storeAt_comm {first second : List String} (apart : Apart first second) (one two : Value)
    (entries : List (String × Value)) : storeAt one first (storeAt two second entries) =
      storeAt two second (storeAt one first entries) := by
  induction first generalizing second entries with
  | nil => exact absurd List.nil_prefix apart.before
  | cons key rest ih =>
    cases second with
    | nil => exact absurd List.nil_prefix apart.after
    | cons other more =>
      rw [storeAt_cons, storeAt_cons, storeAt_cons, storeAt_cons]
      by_cases same : key = other
      · subst same
        have rest_apart := apart.tail
        have further : rest ≠ [] := fun last => rest_apart.before (last ▸ List.nil_prefix)
        have further' : more ≠ [] := fun last => rest_apart.after (last ▸ List.nil_prefix)
        rw [if_neg further, if_neg further, if_neg further', if_neg further', under_insert_self,
          under_insert_self, Keyed.insert_insert, Keyed.insert_insert, ih rest_apart]
      · rw [under_insert_of_ne same, under_insert_of_ne (Ne.symm same), Keyed.insert_comm same]

/-- Storing a plain value under keys keeps a map plain. -/
theorem IsPlain.storeAt (plain : (Value.map entries).IsPlain) (keyed : ∀ key ∈ keys, IsKey key)
    (inner : value.IsPlain) : (Value.map (CommandGrammar.storeAt value keys entries)).IsPlain := by
  induction keys generalizing entries with
  | nil => exact plain
  | cons key rest ih =>
    obtain ⟨own, later⟩ := List.forall_mem_cons.1 keyed
    rw [storeAt_cons]
    refine plain.insert own ?_
    split
    · exact inner
    · refine ih ?_ later
      rw [under]
      cases found : Keyed.find? key entries with
      | none => exact isPlain_empty
      | some old =>
        obtain ⟨below, rfl⟩ | form := old.eq_map_or_leaf
        · exact (plain.find? found).2
        · rw [Option.bind_some, form]
          exact isPlain_empty

/-! ## Order along a path -/

/-- The maps that keys lead through are in order. -/
def IsOrderedTo : Value → List String → Prop
  | _, [] => True
  | value, key :: keys => ∀ entries, value = .map entries → Keyed.Ordered entries ∧
      ∀ inner, Keyed.find? key entries = some inner → inner.IsOrderedTo keys

/-- An empty map is in order. -/
theorem isOrderedTo_empty : (Value.map []).IsOrderedTo keys := by
  cases keys with
  | nil => trivial
  | cons key keys =>
    intro entries same
    cases same
    refine ⟨List.Pairwise.nil, ?_⟩
    intro inner found
    cases found

/-- What is below a key is in order along the keys that follow. -/
theorem IsOrderedTo.under (ordered : (Value.map entries).IsOrderedTo (key :: keys)) :
    (Value.map (Value.under key entries)).IsOrderedTo keys := by
  rw [Value.under]
  cases found : Keyed.find? key entries with
  | none => exact isOrderedTo_empty
  | some old =>
    obtain ⟨inner, rfl⟩ | form := old.eq_map_or_leaf
    · exact (ordered entries rfl).2 _ found
    · rw [Option.bind_some, form]
      exact isOrderedTo_empty

/-- Storing keeps the maps along a path in order that does not lead into what is stored. -/
theorem IsOrderedTo.storeAt (ordered : (Value.map entries).IsOrderedTo keys) (value : Value)
    (outside : stored <+: keys → stored = keys) :
    (Value.map (CommandGrammar.storeAt value stored entries)).IsOrderedTo keys := by
  induction stored generalizing entries keys with
  | nil => exact ordered
  | cons key rest ih =>
    cases keys with
    | nil => trivial
    | cons other keys =>
      rw [storeAt_cons]
      intro changed same
      cases same
      obtain ⟨sorted, later⟩ := ordered entries rfl
      refine ⟨sorted.insert key _, fun inner found => ?_⟩
      by_cases same : other = key
      · subst same
        have rest_outside : rest <+: keys → rest = keys := by
          intro before
          exact (List.cons.inj (outside ((List.prefix_cons_inj other).2 before))).2
        rw [Keyed.find?_insert_self] at found
        obtain rfl := Option.some.inj found
        by_cases last : rest = []
        · rw [← rest_outside (last ▸ List.nil_prefix), last]
          trivial
        · rw [if_neg last]
          exact ih ordered.under rest_outside
      · rw [Keyed.find?_insert_of_ne same] at found
        exact later inner found

/-! ## Nested settings -/

/-- Settings stored into a map one after the other. -/
def storeAll (settings entries : List (String × Value)) : List (String × Value) :=
  settings.foldl (fun before setting => storeAt setting.2 (Text.segments setting.1) before) entries

variable {settings : List (String × Value)}

/-- Settings are nested by storing them into the empty map. -/
theorem nest_eq (settings : List (String × Value)) : nest settings = .map (storeAll settings []) :=
  rfl

/-- The first setting is stored before the others. -/
theorem storeAll_cons (setting : String × Value) (rest entries : List (String × Value)) :
    storeAll (setting :: rest) entries =
      storeAll rest (storeAt setting.2 (Text.segments setting.1) entries) :=
  rfl

/-- Settings stored one after the other have a value under some keys, if one of them, or the map
before, has it there and every other one is apart. -/
theorem at?_storeAll
    (each : ∀ setting ∈ settings, Text.segments setting.1 = keys ∧ setting.2 = value ∨
      Apart (Text.segments setting.1) keys)
    (there : (∃ setting ∈ settings, Text.segments setting.1 = keys) ∨
      (Value.map entries).at? keys = some value)
    (ordered : (Value.map entries).IsOrderedTo keys) :
    (Value.map (storeAll settings entries)).at? keys = some value ∧
      (Value.map (storeAll settings entries)).IsOrderedTo keys := by
  induction settings generalizing entries with
  | nil =>
    refine ⟨there.resolve_left ?_, ordered⟩
    simp
  | cons setting rest ih =>
    obtain ⟨own, others⟩ := List.forall_mem_cons.1 each
    rw [storeAll_cons]
    rcases own with ⟨same, rfl⟩ | apart
    · -- From here on the value is there, and the other settings leave it.
      have some_key : keys ≠ [] := same ▸ Text.segments_ne_nil setting.1
      rw [same]
      exact ih others (.inr (at?_storeAt_self some_key)) (ordered.storeAt _ fun _ => rfl)
    · have outside := ordered.storeAt setting.2 fun before => absurd before apart.before
      refine ih others ?_ outside
      rw [at?_storeAt_of_apart apart]
      rcases there with ⟨other, member, same⟩ | before
      · rcases List.mem_cons.1 member with rfl | later
        · exact absurd (same ▸ List.prefix_refl _) apart.before
        · exact .inl ⟨other, later, same⟩
      · exact .inr before

/-- A nested map has a setting that every other one is apart from. -/
theorem at?_nest
    (each : ∀ setting ∈ settings, Text.segments setting.1 = keys ∧ setting.2 = value ∨
      Apart (Text.segments setting.1) keys)
    (there : ∃ setting ∈ settings, Text.segments setting.1 = keys) :
    (nest settings).at? keys = some value ∧ (nest settings).IsOrderedTo keys :=
  at?_storeAll each (.inl there) isOrderedTo_empty

/-- A setting under a path that a dotted path can be, with a plain value. -/
def IsPlainSetting (setting : String × Value) : Prop :=
  (∀ key ∈ Text.segments setting.1, IsKey key) ∧ setting.2.IsPlain

/-- The nested map of plain settings is plain. -/
theorem isPlain_nest (plain : ∀ setting ∈ settings, IsPlainSetting setting) :
    (nest settings).IsPlain := by
  have stored (entries : List (String × Value)) (before : (Value.map entries).IsPlain) :
      (Value.map (storeAll settings entries)).IsPlain := by
    induction settings generalizing entries with
    | nil => exact before
    | cons setting rest ih =>
      obtain ⟨⟨keyed, inner⟩, later⟩ := List.forall_mem_cons.1 plain
      exact ih later _ (before.storeAt keyed inner)
  exact stored [] isPlain_empty

/-! ## Merging -/

/-- A base that has room for something gets what the overlay has there. -/
theorem at?_merge_of_isFree (ordered : overlay.IsOrderedTo keys) (free : base.isFree keys = true) :
    (base.merge .preferBase overlay).at? keys = overlay.at? keys := by
  induction keys generalizing base overlay with
  | nil => cases free
  | cons key keys ih =>
    obtain ⟨more, rfl⟩ | form := overlay.eq_map_or_leaf
    · obtain ⟨entries, rfl⟩ | form := base.eq_map_or_leaf
      · obtain ⟨sorted, later⟩ := ordered more rfl
        rw [map_merge, at?_map_cons, at?_map_cons, find?_mergeEntries sorted]
        rw [isFree_map_cons] at free
        cases new : Keyed.find? key more with
        | none =>
          have room : (Value.map entries).isFree (key :: keys) = true := free
          exact at?_of_isFree room
        | some inner =>
          cases old : Keyed.find? key entries with
          | none => rfl
          | some own =>
            rw [old, Option.elim_some] at free
            exact ih (later inner new) free
      · rw [isFree_leaf form] at free
        cases free
    · rw [merge_of_leaf form, at?_of_isFree free, at?_cons_of_leaf form]

/-- Under a key of the base, merged entries have what the base has, or something merged into it. -/
theorem find?_mergeEntries_of_base (strategy : MergeStrategy) (more : List (String × Value))
    {merged : List (String × Value)} {old : Value} (base : Keyed.find? key entries = some old)
    (before : Keyed.find? key merged = some old ∨
      ∃ value, Keyed.find? key merged = some (old.merge strategy value)) :
    Keyed.find? key (mergeEntries strategy entries more merged) = some old ∨
      ∃ value, Keyed.find? key (mergeEntries strategy entries more merged) =
        some (old.merge strategy value) := by
  induction more generalizing merged with
  | nil => exact before
  | cons entry rest ih =>
    rw [mergeEntries]
    apply ih
    by_cases same : key = entry.1
    · rw [← same, base, Keyed.find?_insert_self]
      exact .inr ⟨entry.2, rfl⟩
    · rw [Keyed.find?_insert_of_ne same]
      exact before

/-- A leaf of the base stays, whatever is merged into the base. -/
theorem leaf?_merge_of_leaf (found : base.leaf? keys = some leaf) :
    (base.merge .preferBase overlay).leaf? keys = some leaf := by
  induction keys generalizing base overlay with
  | nil =>
    obtain ⟨entries, rfl⟩ | form := base.eq_map_or_leaf
    · cases found
    · rw [leaf_merge form, found]
  | cons key keys ih =>
    obtain ⟨entries, rfl⟩ | form := base.eq_map_or_leaf
    · obtain ⟨more, rfl⟩ | form := overlay.eq_map_or_leaf
      · rw [leaf?_map_cons] at found
        obtain ⟨old, own, inside⟩ := Option.bind_eq_some_iff.1 found
        rw [map_merge, leaf?_map_cons]
        rcases find?_mergeEntries_of_base .preferBase more own (.inl own) with
          kept | ⟨value, changed⟩
        · rw [kept]
          exact inside
        · rw [changed]
          exact ih inside
      · rw [merge_of_leaf form, found]
    · rw [leaf?_cons form] at found
      cases found

/-- A map in order, merged into the empty one, is that map. -/
theorem empty_merge {strategy : MergeStrategy} (ordered : Keyed.Ordered entries) :
    (Value.map []).merge strategy (.map entries) = .map entries := by
  rw [map_merge]
  refine congrArg Value.map (Keyed.Ordered.ext (ordered_mergeEntries List.Pairwise.nil) ordered
    fun key => ?_)
  rw [find?_mergeEntries ordered]
  cases Keyed.find? key entries <;> rfl

end Value

end CommandGrammar
