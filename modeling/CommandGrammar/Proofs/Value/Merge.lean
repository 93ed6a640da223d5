import Mathlib
import CommandGrammar.Value.Merge
import CommandGrammar.Proofs.Value.Leaves

/-!
# Leaves of merged values

Where the base is preferred a merged value has the leaves of the base, and those leaves of the
overlay that nothing of the base is in the way of. What is in the way is a leaf on the path, or
anything at its end.
-/

namespace CommandGrammar

/-- Following keys through the maps of a value ends at a key that is missing, so that a value may
be stored there. -/
def Value.isFree (value : Value) : List String → Bool
  | [] => false
  | key :: keys =>
    value.map?.elim false fun entries =>
      (Keyed.find? key entries).elim true fun inner => inner.isFree keys

namespace Value

variable {value base overlay : Value} {entries more : List (String × Value)} {key : String}
  {keys : List String}

/-- A value that is no map is in the way of everything. -/
theorem isFree_leaf (leaf : value.map? = none) : value.isFree keys = false := by
  cases keys with
  | nil => rfl
  | cons key keys => rw [isFree, leaf, Option.elim_none]

/-- A map is in the way of what one of its entries is in the way of. -/
theorem isFree_map_cons : (Value.map entries).isFree (key :: keys) =
    (Keyed.find? key entries).elim true fun inner => inner.isFree keys :=
  rfl

/-- Where a value may be stored there is nothing. -/
theorem at?_of_isFree (free : value.isFree keys = true) : value.at? keys = none := by
  induction keys generalizing value with
  | nil => cases free
  | cons key keys ih =>
    obtain ⟨entries, rfl⟩ | form := value.eq_map_or_leaf
    · rw [isFree_map_cons] at free
      rw [at?_map_cons]
      cases found : Keyed.find? key entries with
      | none => rfl
      | some inner =>
        rw [found, Option.elim_some] at free
        exact ih free
    · exact at?_cons_of_leaf form

/-- Where a value may be stored there is no leaf. -/
theorem leaf?_of_isFree (free : value.isFree keys = true) : value.leaf? keys = none := by
  rw [leaf?, at?_of_isFree free]
  rfl

/-! ## Merged maps -/

/-- An overlay that is no map changes nothing. -/
theorem merge_of_leaf (leaf : overlay.map? = none) : base.merge .preferBase overlay = base := by
  cases overlay with
  | map entries => cases leaf
  | _ => rw [merge, MergeStrategy.choose]

/-- A base that is no map stays as it is. -/
theorem leaf_merge (leaf : base.map? = none) : base.merge .preferBase overlay = base := by
  cases overlay with
  | map more =>
    cases base with
    | map entries => cases leaf
    | _ => simp only [merge, MergeStrategy.choose]
  | _ => exact merge_of_leaf rfl

end Value

/-- Merging keeps a map in order. -/
theorem ordered_mergeEntries {strategy : MergeStrategy}
    {base overlay merged : List (String × Value)} (ordered : Keyed.Ordered merged) :
    Keyed.Ordered (mergeEntries strategy base overlay merged) := by
  induction overlay generalizing merged with
  | nil => rwa [mergeEntries]
  | cons entry rest ih =>
    rw [mergeEntries]
    exact ih (ordered.insert _ _)

/-- What merged entries have under a key: what the overlay has there, merged into what the base
has, or else what was there. -/
theorem find?_mergeEntries {strategy : MergeStrategy} {base overlay merged : List (String × Value)}
    (ordered : Keyed.Ordered overlay) (key : String) :
    Keyed.find? key (mergeEntries strategy base overlay merged) =
      (Keyed.find? key overlay).elim (Keyed.find? key merged) fun value =>
        some ((Keyed.find? key base).elim value fun old => old.merge strategy value) := by
  induction overlay generalizing merged with
  | nil => rw [mergeEntries, Keyed.find?, Option.elim_none]
  | cons entry rest ih =>
    obtain ⟨least, sorted⟩ := List.pairwise_cons.1 ordered
    rw [mergeEntries, ih sorted, Keyed.find?]
    by_cases same : entry.1 = key
    · -- The keys that follow are greater, so that nothing replaces what is stored here.
      have absent : Keyed.find? key rest = none := by
        cases found : Keyed.find? key rest with
        | none => rfl
        | some value =>
          have below := least _ (Keyed.mem_of_find? found)
          have self : compare key key = .eq := Std.ReflCmp.compare_self
          rw [same, self] at below
          cases below
      rw [absent, if_pos same, Option.elim_none, Option.elim_some, same,
        Keyed.find?_insert_self]
      cases Keyed.find? key base <;> rfl
    · rw [if_neg same, Keyed.find?_insert_of_ne (Ne.symm same)]

namespace Value

variable {value base overlay : Value} {entries more : List (String × Value)} {key : String}
  {keys : List String}

/-- Maps are merged key by key. -/
theorem map_merge {strategy : MergeStrategy} : (Value.map entries).merge strategy (.map more) =
    .map (mergeEntries strategy entries more entries) := by
  rw [merge]

/-- A merged value has the leaves of the base, and of the leaves of the overlay those that the
base leaves room for. -/
theorem leaf?_merge (plain : overlay.IsPlain) :
    (base.merge .preferBase overlay).leaf? keys =
      (base.leaf? keys).or (if base.isFree keys then overlay.leaf? keys else none) := by
  induction keys generalizing base overlay with
  | nil =>
    rw [isFree, if_neg Bool.false_ne_true, Option.or_none]
    obtain ⟨entries, rfl⟩ | form := base.eq_map_or_leaf
    · obtain ⟨more, rfl⟩ | form := overlay.eq_map_or_leaf
      · rw [map_merge, leaf?_map_nil, leaf?_map_nil]
      · rw [merge_of_leaf form]
    · rw [leaf_merge form]
  | cons key keys ih =>
    obtain ⟨entries, rfl⟩ | form := base.eq_map_or_leaf
    · obtain ⟨more, rfl⟩ | form := overlay.eq_map_or_leaf
      · rw [map_merge, leaf?_map_cons, leaf?_map_cons, leaf?_map_cons, isFree_map_cons,
          find?_mergeEntries plain.1]
        cases hnew : Keyed.find? key more with
        | none => simp
        | some inner =>
          cases Keyed.find? key entries with
          | none => simp
          | some old => exact ih (plain.find? hnew).2
      · rw [merge_of_leaf form, leaf?_cons form, ite_self, Option.or_none]
    · rw [leaf_merge form, isFree_leaf form, if_neg Bool.false_ne_true, Option.or_none]

/-- What is in the way in the base stays in the way. -/
theorem isFree_of_merge (plain : overlay.IsPlain)
    (free : (base.merge .preferBase overlay).isFree keys = true) : base.isFree keys = true := by
  induction keys generalizing base overlay with
  | nil => cases free
  | cons key keys ih =>
    obtain ⟨entries, rfl⟩ | form := base.eq_map_or_leaf
    · obtain ⟨more, rfl⟩ | form := overlay.eq_map_or_leaf
      · rw [map_merge, isFree_map_cons, find?_mergeEntries plain.1] at free
        rw [isFree_map_cons]
        cases hold : Keyed.find? key entries with
        | none => rfl
        | some old =>
          rw [hold] at free
          cases hnew : Keyed.find? key more with
          | none =>
            rw [hnew] at free
            exact free
          | some inner =>
            rw [hnew] at free
            exact ih (plain.find? hnew).2 free
      · rwa [merge_of_leaf form] at free
    · rwa [leaf_merge form] at free

mutual

/-- Merging keeps values plain. -/
theorem IsPlain.merge {base : Value} (overlay : Value) (basePlain : base.IsPlain)
    (plain : overlay.IsPlain) : (base.merge .preferBase overlay).IsPlain := by
  cases overlay with
  | map more =>
    obtain ⟨entries, rfl⟩ | form := base.eq_map_or_leaf
    · rw [map_merge]
      exact IsPlain.mergeEntries more basePlain plain.2 basePlain
    · rwa [leaf_merge form]
  | _ => rwa [merge_of_leaf rfl]

/-- Merging keeps entries plain. -/
theorem IsPlain.mergeEntries {entries merged : List (String × Value)}
    (more : List (String × Value)) (basePlain : (Value.map entries).IsPlain)
    (plain : EntriesPlain more) (mergedPlain : (Value.map merged).IsPlain) :
    (Value.map (CommandGrammar.mergeEntries .preferBase entries more merged)).IsPlain := by
  cases more with
  | nil =>
    rw [CommandGrammar.mergeEntries]
    exact mergedPlain
  | cons entry rest =>
    obtain ⟨key, value⟩ := entry
    obtain ⟨keyed, inner, restPlain⟩ := plain
    rw [CommandGrammar.mergeEntries]
    refine IsPlain.mergeEntries rest basePlain restPlain (mergedPlain.insert keyed ?_)
    split
    · next old found => exact IsPlain.merge value (basePlain.find? found).2 inner
    · exact inner

end

/-! ## Chains of merges -/

/-- Values merged one after the other, the first one winning. -/
def mergeAll (values : List Value) : Value :=
  values.foldl (fun base overlay => base.merge .preferBase overlay) (.map [])

/-- The last value is merged into what the ones before it give. -/
theorem mergeAll_concat (values : List Value) (last : Value) :
    mergeAll (values ++ [last]) = (mergeAll values).merge .preferBase last := by
  rw [mergeAll, List.foldl_concat]
  rfl

/-- Plain values are merged to a plain one. -/
theorem isPlain_mergeAll {values : List Value} (plain : ∀ value ∈ values, value.IsPlain) :
    (mergeAll values).IsPlain := by
  induction values using List.reverseRecOn with
  | nil => exact isPlain_empty
  | append_singleton values last ih =>
    rw [mergeAll_concat]
    exact IsPlain.merge last (ih fun value member => plain value (by simp [member]))
      (plain last (by simp))

/-- A leaf of merged values is a leaf of one of them. -/
theorem exists_of_leaf?_mergeAll {values : List Value} (plain : ∀ value ∈ values, value.IsPlain)
    (found : ((mergeAll values).leaf? keys).isSome = true) :
    ∃ value ∈ values, (value.leaf? keys).isSome = true := by
  induction values using List.reverseRecOn with
  | nil =>
    cases keys with
    | nil => cases found
    | cons key keys => cases found
  | append_singleton values last ih =>
    rw [mergeAll_concat, leaf?_merge (plain last (by simp)), Option.isSome_or,
      Bool.or_eq_true] at found
    rcases found with before | own
    · obtain ⟨value, member, leaf⟩ := ih (fun value member => plain value (by simp [member])) before
      exact ⟨value, by simp [member], leaf⟩
    · split at own
      · exact ⟨last, by simp, own⟩
      · cases own

/-- Where something is in the way, later values change nothing. -/
theorem leaf?_mergeAll_of_blocked {values later : List Value}
    (plain : ∀ value ∈ later, value.IsPlain) (blocked : (mergeAll values).isFree keys = false) :
    (mergeAll (values ++ later)).leaf? keys = (mergeAll values).leaf? keys := by
  induction later generalizing values with
  | nil => rw [List.append_nil]
  | cons next later ih =>
    obtain ⟨own, rest⟩ := List.forall_mem_cons.1 plain
    have still : (mergeAll (values ++ [next])).isFree keys = false := by
      rw [mergeAll_concat, Bool.eq_false_iff]
      intro free
      exact Bool.false_ne_true (blocked.symm.trans (isFree_of_merge own free))
    rw [List.append_cons, ih rest still, mergeAll_concat, leaf?_merge own, blocked,
      if_neg Bool.false_ne_true, Option.or_none]

/-- The first leaf under some keys is a leaf of the merged values if the values before it leave
room for it, and otherwise there is none. -/
theorem leaf?_mergeAll {before later : List Value} (plain : ∀ other ∈ later, other.IsPlain)
    (own : value.IsPlain) (first : ∀ other ∈ before, other.leaf? keys = none)
    (beforePlain : ∀ other ∈ before, other.IsPlain) {leaf : Value}
    (found : value.leaf? keys = some leaf) :
    (mergeAll (before ++ value :: later)).leaf? keys =
      if (mergeAll before).isFree keys then some leaf else none := by
  have nothing : (mergeAll before).leaf? keys = none := by
    by_contra some_leaf
    obtain ⟨other, member, other_leaf⟩ := exists_of_leaf?_mergeAll beforePlain
      (Option.isSome_iff_ne_none.2 some_leaf)
    rw [first other member] at other_leaf
    cases other_leaf
  have upto : (mergeAll (before ++ [value])).leaf? keys =
      if (mergeAll before).isFree keys then some leaf else none := by
    rw [mergeAll_concat, leaf?_merge own, nothing, found, Option.none_or]
  have blocked : (mergeAll (before ++ [value])).isFree keys = false := by
    rw [Bool.eq_false_iff]
    intro free
    have room := leaf?_of_isFree free
    rw [mergeAll_concat] at free
    rw [upto, if_pos (isFree_of_merge own free)] at room
    cases room
  rw [List.append_cons, leaf?_mergeAll_of_blocked plain blocked, upto]

end Value

end CommandGrammar
