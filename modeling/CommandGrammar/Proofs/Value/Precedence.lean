import Mathlib
import CommandGrammar.Proofs.Value.Merge

/-!
# Precedence among merged values

What merged values have under some keys depends on the first of them that has anything there, and
on the first ones along the way. As long as those along the way are maps, all values that have
something under the keys are merged there, and the first one wins. If one of them is no map, it
hides what later values have below it.
-/

namespace CommandGrammar

namespace Value

/-! ## Ordered values -/

/-- Every map that keys lead to is in order. -/
def IsOrdered (value : Value) : Prop :=
  ∀ keys entries, value.at? keys = some (.map entries) → Keyed.Ordered entries

variable {value inner first overlay : Value} {rest values : List Value}
  {entries : List (String × Value)} {key : String} {keys : List String}

/-- What an ordered value has under keys is ordered. -/
theorem IsOrdered.at? {above : List String} (ordered : value.IsOrdered)
    (found : value.at? above = some inner) : inner.IsOrdered := by
  intro keys entries reached
  apply ordered (above ++ keys) entries
  rw [at?_append, found]
  exact reached

/-- What an ordered map has under a key is ordered. -/
theorem IsOrdered.find? (ordered : (Value.map entries).IsOrdered)
    (found : Keyed.find? key entries = some inner) : inner.IsOrdered := by
  have reached : (Value.map entries).at? [key] = some inner := by
    rw [at?_map_cons, found]
    rfl
  exact ordered.at? reached

/-- Plain values are ordered. -/
theorem IsPlain.isOrdered (plain : value.IsPlain) : value.IsOrdered := by
  intro keys entries reached
  induction keys generalizing value with
  | nil =>
    cases reached
    exact plain.1
  | cons key keys ih =>
    obtain ⟨own, rfl⟩ | leaf := value.eq_map_or_leaf
    · rw [at?_map_cons] at reached
      obtain ⟨inner, found, inside⟩ := Option.bind_eq_some_iff.1 reached
      exact ih (plain.find? found).2 inside
    · rw [at?_cons_of_leaf leaf] at reached
      cases reached

/-! ## Merging over the first value -/

/-- Values merged one after the other over a first one. -/
def mergeOver (first : Value) (rest : List Value) : Value :=
  rest.foldl (fun base overlay => base.merge .preferBase overlay) first

/-- Values merged over the first one of them. -/
def mergeOver? : List Value → Option Value
  | [] => none
  | first :: rest => some (first.mergeOver rest)

/-- The value of the first one that has any under some keys. -/
def firstAt? (keys : List String) (values : List Value) : Option Value :=
  values.findSome? (·.at? keys)

/-- The first value under some keys is the first one of those under them. -/
theorem firstAt?_eq_head? : firstAt? keys values = (values.filterMap (·.at? keys)).head? := by
  rw [List.head?_filterMap, firstAt?]

/-- The values under some keys are, under the keys that follow the first one, those of the values
under it. -/
theorem filterMap_at?_cons (values : List Value) (key : String) (keys : List String) :
    values.filterMap (·.at? (key :: keys)) =
      (values.filterMap (·.at? [key])).filterMap (·.at? keys) := by
  rw [List.filterMap_filterMap]
  congr 1
  funext value
  exact at?_append value [key] keys

/-- A first value that is no map stays as it is. -/
theorem mergeOver_leaf (leaf : first.map? = none) : first.mergeOver rest = first := by
  induction rest with
  | nil => rfl
  | cons next rest ih =>
    rw [mergeOver, List.foldl_cons, leaf_merge leaf]
    exact ih

/-- A first value that is a map stays a map. -/
theorem map_mergeOver (entries : List (String × Value)) (rest : List Value) :
    ∃ merged, (Value.map entries).mergeOver rest = .map merged := by
  induction rest generalizing entries with
  | nil => exact ⟨entries, rfl⟩
  | cons next rest ih =>
    obtain ⟨more, rfl⟩ | leaf := next.eq_map_or_leaf
    · have step : (Value.map entries).mergeOver (.map more :: rest) =
          (Value.map (mergeEntries .preferBase entries more entries)).mergeOver rest := by
        rw [mergeOver, List.foldl_cons, map_merge]
        rfl
      rw [step]
      exact ih _
    · have step : (Value.map entries).mergeOver (next :: rest) =
          (Value.map entries).mergeOver rest := by
        rw [mergeOver, List.foldl_cons, merge_of_leaf leaf]
        rfl
      rw [step]
      exact ih entries

/-- Merging one value over a map merges what the two have under a key. -/
theorem at?_map_merge (ordered : overlay.IsOrdered) :
    ((Value.map entries).merge .preferBase overlay).at? [key] =
      mergeOver? ([.map entries, overlay].filterMap (·.at? [key])) := by
  rw [List.filterMap_cons, List.filterMap_cons, List.filterMap_nil]
  obtain ⟨more, rfl⟩ | leaf := overlay.eq_map_or_leaf
  · rw [map_merge, at?_map_cons, at?_map_cons, at?_map_cons,
      find?_mergeEntries (ordered [] more rfl)]
    cases Keyed.find? key more with
    | none => cases Keyed.find? key entries <;> rfl
    | some new => cases Keyed.find? key entries <;> rfl
  · rw [merge_of_leaf leaf, at?_cons_of_leaf leaf]
    cases (Value.map entries).at? [key] <;> rfl

/-- Merging values over a map merges what they have under a key. -/
theorem at?_map_mergeOver (ordered : ∀ value ∈ rest, value.IsOrdered) :
    ((Value.map entries).mergeOver rest).at? [key] =
      mergeOver? ((Value.map entries :: rest).filterMap (·.at? [key])) := by
  induction rest generalizing entries with
  | nil =>
    rw [List.filterMap_cons, List.filterMap_nil, mergeOver, List.foldl_nil]
    cases (Value.map entries).at? [key] <;> rfl
  | cons next rest ih =>
    obtain ⟨own, others⟩ := List.forall_mem_cons.1 ordered
    obtain ⟨merged, same⟩ := map_mergeOver entries [next]
    have step : (Value.map merged).at? [key] =
        mergeOver? ([.map entries, next].filterMap (·.at? [key])) := by
      rw [← same]
      exact at?_map_merge own
    have unfolded : (Value.map entries).mergeOver (next :: rest) =
        (Value.map merged).mergeOver rest := by
      rw [← same]
      rfl
    rw [unfolded, ih others]
    simp only [List.filterMap_cons, List.filterMap_nil] at step ⊢
    rw [step]
    cases (Value.map entries).at? [key] with
    | none => cases next.at? [key] <;> rfl
    | some old => cases next.at? [key] <;> rfl

/-! ## Along the way -/

/-- Along the way of some keys the first value is always a map. -/
def LeadTo (values : List Value) (keys : List String) : Prop :=
  ∀ above, above <+: keys → above ≠ keys → ∃ entries, firstAt? above values = some (.map entries)

/-- No keys are no way. -/
theorem leadTo_nil : LeadTo values [] := by
  intro above inside shorter
  exact absurd (List.prefix_nil.1 inside) shorter

/-- The way of some keys begins at the first value, which has to be a map, and goes on in the
values under the first key. -/
theorem leadTo_cons_iff : LeadTo values (key :: keys) ↔
    (∃ entries, values.head? = some (.map entries)) ∧
      LeadTo (values.filterMap (·.at? [key])) keys := by
  have top : firstAt? [] values = values.head? := by
    cases values <;> rfl
  have below (above : List String) :
      firstAt? (key :: above) values = firstAt? above (values.filterMap (·.at? [key])) := by
    rw [firstAt?_eq_head?, firstAt?_eq_head?, filterMap_at?_cons]
  constructor
  · intro leads
    constructor
    · rw [← top]
      exact leads [] List.nil_prefix (List.cons_ne_nil key keys).symm
    · intro above inside shorter
      rw [← below]
      apply leads (key :: above) ((List.prefix_cons_inj key).2 inside)
      intro same
      exact shorter (List.cons.inj same).2
  · intro both above inside shorter
    obtain ⟨start, later⟩ := both
    cases above with
    | nil =>
      rw [top]
      exact start
    | cons other above =>
      obtain ⟨rfl, within⟩ := List.cons_prefix_cons.1 inside
      rw [below]
      apply later above within
      intro same
      exact shorter (congrArg _ same)

open Classical in
/-- If the way of some keys leads through maps, the merged values have there what any of them has
there, merged over the first one of these. Otherwise they have nothing there. -/
theorem at?_mergeOver? (ordered : ∀ value ∈ values, value.IsOrdered) (keys : List String) :
    (mergeOver? values).bind (·.at? keys) =
      if LeadTo values keys then mergeOver? (values.filterMap (·.at? keys)) else none := by
  induction keys generalizing values with
  | nil =>
    have all : values.filterMap (·.at? []) = values := List.filterMap_some
    rw [if_pos leadTo_nil, all]
    exact Option.bind_fun_some (mergeOver? values)
  | cons key keys ih =>
    rw [leadTo_cons_iff]
    cases values with
    | nil => simp [mergeOver?]
    | cons first rest =>
      obtain ⟨entries, rfl⟩ | leaf := first.eq_map_or_leaf
      · have others := (List.forall_mem_cons.1 ordered).2
        have under : ∀ inner ∈ (Value.map entries :: rest).filterMap (·.at? [key]),
            inner.IsOrdered := by
          intro inner member
          obtain ⟨value, own, found⟩ := List.mem_filterMap.1 member
          exact (ordered value own).at? found
        have start : ∃ own, (Value.map entries :: rest).head? = some (Value.map own) :=
          ⟨entries, rfl⟩
        calc (mergeOver? (.map entries :: rest)).bind (·.at? (key :: keys))
          _ = (((Value.map entries).mergeOver rest).at? [key]).bind (·.at? keys) :=
            at?_append _ [key] keys
          _ = (mergeOver? ((Value.map entries :: rest).filterMap (·.at? [key]))).bind
                (·.at? keys) := by rw [at?_map_mergeOver others]
          _ = _ := by
            rw [ih under, filterMap_at?_cons _ key keys]
            simp only [start, true_and]
      · have blocked : ¬∃ entries, (first :: rest).head? = some (Value.map entries) := by
          intro start
          obtain ⟨entries, same⟩ := start
          cases same
          cases leaf
        rw [if_neg fun leads => blocked leads.1, mergeOver?, mergeOver_leaf leaf]
        exact at?_cons_of_leaf leaf

/-! ## All values -/

/-- Values merged over an empty map have nothing in the way at the top. -/
theorem leadTo_empty_cons_iff : LeadTo (.map [] :: values) keys ↔
    ∀ above, above <+: keys → above ≠ [] → above ≠ keys →
      ∃ entries, firstAt? above values = some (.map entries) := by
  have below (above : List String) (some_key : above ≠ []) :
      firstAt? above (.map [] :: values) = firstAt? above values := by
    rw [firstAt?, List.findSome?_cons, at?_empty some_key]
    rfl
  constructor
  · intro leads above inside some_key shorter
    rw [← below above some_key]
    exact leads above inside shorter
  · intro leads above inside shorter
    by_cases top : above = []
    · subst top
      exact ⟨[], rfl⟩
    · rw [below above top]
      exact leads above inside top shorter

open Classical in
/-- What all values merged have under some keys. -/
theorem at?_mergeAll (ordered : ∀ value ∈ values, value.IsOrdered) (some_key : keys ≠ []) :
    (mergeAll values).at? keys =
      if LeadTo (.map [] :: values) keys then mergeOver? (values.filterMap (·.at? keys))
      else none := by
  have empty : (Value.map []).IsOrdered := isPlain_empty.isOrdered
  have all : ∀ value ∈ .map [] :: values, value.IsOrdered :=
    List.forall_mem_cons.2 ⟨empty, ordered⟩
  have merged := at?_mergeOver? all keys
  rw [List.filterMap_cons, at?_empty some_key] at merged
  exact merged

/-- Merged values have something under some keys exactly if one of them has, and on the way there
the first value is always a map. -/
theorem at?_mergeAll_isSome_iff (ordered : ∀ value ∈ values, value.IsOrdered)
    (some_key : keys ≠ []) : ((mergeAll values).at? keys).isSome = true ↔
      (∃ value ∈ values, (value.at? keys).isSome = true) ∧
        ∀ above, above <+: keys → above ≠ [] → above ≠ keys →
          ∃ entries, firstAt? above values = some (.map entries) := by
  rw [at?_mergeAll ordered some_key, ← leadTo_empty_cons_iff]
  have merged : (mergeOver? (values.filterMap (·.at? keys))).isSome = true ↔
      ∃ value ∈ values, (value.at? keys).isSome = true := by
    cases under : values.filterMap (·.at? keys) with
    | nil =>
      apply iff_of_false (by simp [mergeOver?])
      intro reached
      obtain ⟨value, member, found⟩ := reached
      rw [List.filterMap_eq_nil_iff.1 under value member] at found
      cases found
    | cons first rest =>
      apply iff_of_true rfl
      have member : first ∈ values.filterMap (·.at? keys) := under ▸ List.mem_cons_self
      obtain ⟨value, own, found⟩ := List.mem_filterMap.1 member
      exact ⟨value, own, Option.isSome_of_eq_some found⟩
  by_cases leads : LeadTo (.map [] :: values) keys
  · rw [if_pos leads, merged, and_iff_left leads]
  · rw [if_neg leads]
    exact iff_of_false Bool.false_ne_true fun both => leads both.2

/-- What merged values have under some keys is what the first of them that has anything there has,
or a map if that is one. -/
theorem exists_firstAt?_of_mergeAll (ordered : ∀ value ∈ values, value.IsOrdered)
    (some_key : keys ≠ []) {merged : Value} (found : (mergeAll values).at? keys = some merged) :
    ∃ first, firstAt? keys values = some first ∧ (first.map? = none → merged = first) ∧
      (first.map?.isSome = true → merged.map?.isSome = true) := by
  rw [at?_mergeAll ordered some_key] at found
  split at found
  · rw [firstAt?_eq_head?]
    cases under : values.filterMap (·.at? keys) with
    | nil =>
      rw [under] at found
      cases found
    | cons first rest =>
      rw [under] at found
      have same : first.mergeOver rest = merged := Option.some.inj found
      refine ⟨first, rfl, fun leaf => ?_, fun mapped => ?_⟩
      · rw [← same, mergeOver_leaf leaf]
      · obtain ⟨entries, rfl⟩ | leaf := first.eq_map_or_leaf
        · obtain ⟨all, merges⟩ := map_mergeOver entries rest
          rw [← same, merges]
          rfl
        · rw [leaf] at mapped
          cases mapped
  · cases found

end Value

end CommandGrammar
