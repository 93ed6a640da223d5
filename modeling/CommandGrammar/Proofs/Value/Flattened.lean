import Mathlib
import CommandGrammar.Proofs.Value.Precedence
import CommandGrammar.Proofs.Value.Settings

/-!
# Values taken apart

The leaf paths of a plain value, with what is under them, are settings. They tell each leaf once.
Nested again they make a value with the same leaves, and that is the same value as long as no map
inside is empty: an empty map has no leaf to tell that it is there.
-/

namespace CommandGrammar

namespace Text

/-- The pieces of a text around a separator are those before it and those after it. -/
theorem pieces_around (separator : Char) (front back : List Char) :
    pieces separator (front ++ separator :: back) =
      pieces separator front ++ pieces separator back := by
  induction front with
  | nil => simp [pieces]
  | cons c cs ih =>
    rw [List.cons_append, pieces, pieces, ih]
    by_cases same : c = separator
    · rw [if_pos same, if_pos same, List.cons_append]
    · rw [if_neg same, if_neg same]
      cases parts : pieces separator cs with
      | nil => exact absurd parts (pieces_ne_nil separator cs)
      | cons piece rest => rfl

/-- The segments of a path that opens another one lead to those of the other one, where more of them
follow. -/
theorem segments_of_opens {first second : String} (opens : Opens first second) :
    ∃ next rest, segments second = segments first ++ next :: rest := by
  obtain ⟨back, same⟩ := opens
  have dot : ".".toList = ['.'] := by decide
  rw [String.toList_append, dot, List.append_assoc, List.singleton_append] at same
  obtain ⟨piece, rest, parts⟩ := List.exists_cons_of_ne_nil (pieces_ne_nil '.' back)
  refine ⟨String.ofList piece, rest.map String.ofList, ?_⟩
  rw [segments, split, ← same, pieces_around, parts, List.map_append, List.map_cons, segments,
    split]

end Text

namespace Value

variable {value other leaf : Value} {entries more : List (String × Value)} {key path : String}
  {keys : List String}

/-! ## Values without empty maps -/

/-- No map below the top of a value is empty. -/
def IsFilled (value : Value) : Prop := ∀ keys, keys ≠ [] → value.at? keys ≠ some (.map [])

/-- A value that is no map is filled. -/
theorem isFilled_of_leaf (form : value.map? = none) : value.IsFilled := by
  intro keys some_key
  obtain ⟨key, rest, rfl⟩ := List.exists_cons_of_ne_nil some_key
  rw [at?_cons_of_leaf form]
  exact nofun

/-- A map is filled if what its entries have is, and is not the empty map. -/
theorem isFilled_map (each : ∀ entry ∈ entries, entry.2 ≠ .map [] ∧ entry.2.IsFilled) :
    (Value.map entries).IsFilled := by
  intro keys some_key reached
  obtain ⟨key, rest, rfl⟩ := List.exists_cons_of_ne_nil some_key
  rw [at?_map_cons] at reached
  obtain ⟨inner, found, below⟩ := Option.bind_eq_some_iff.1 reached
  obtain ⟨nonempty, filled⟩ := each _ (Keyed.mem_of_find? found)
  by_cases last : rest = []
  · rw [last] at below
    exact nonempty (Option.some.inj below)
  · exact filled rest last below

/-- A value that is no map is its own leaf. -/
theorem leaf?_nil (form : value.map? = none) : value.leaf? [] = some value := by
  rw [leaf?, at?, Option.filter_some, form]
  rfl

/-- A value that holds no empty map has a leaf. -/
theorem exists_leaf? (filled : ∀ keys, value.at? keys ≠ some (.map [])) :
    ∃ keys, (value.leaf? keys).isSome = true := by
  induction value using induction_on_entries with
  | leaf value form =>
    refine ⟨[], ?_⟩
    rw [leaf?_nil form]
    rfl
  | map entries ih =>
    have some_entry : entries ≠ [] := by
      rintro rfl
      exact filled [] rfl
    obtain ⟨⟨key, inner⟩, rest, rfl⟩ := List.exists_cons_of_ne_nil some_entry
    have found : Keyed.find? key ((key, inner) :: rest) = some inner := if_pos rfl
    have below (keys : List String) : (Value.map ((key, inner) :: rest)).at? (key :: keys) =
        inner.at? keys := by
      rw [at?_map_cons, found, Option.bind_some]
    obtain ⟨keys, leaf⟩ := ih key inner found fun keys => below keys ▸ filled (key :: keys)
    refine ⟨key :: keys, ?_⟩
    rw [leaf?_map_cons, found, Option.bind_some]
    exact leaf

/-- What a filled map has under a key is filled, and has a leaf. -/
theorem IsFilled.find? (filled : (Value.map entries).IsFilled) {inner : Value}
    (found : Keyed.find? key entries = some inner) :
    inner.IsFilled ∧ ∃ keys, (inner.leaf? keys).isSome = true := by
  have below (keys : List String) : inner.at? keys ≠ some (.map []) := by
    have nowhere := filled (key :: keys) (List.cons_ne_nil key keys)
    rwa [at?_map_cons, found, Option.bind_some] at nowhere
  exact ⟨fun keys _ => below keys, exists_leaf? below⟩

/-- Two filled maps that have the same leaves have something under the same keys. -/
theorem find?_isSome_of_leaves (filled : (Value.map entries).IsFilled)
    (same : ∀ keys, (Value.map entries).leaf? keys = (Value.map more).leaf? keys)
    {inner : Value} (found : Keyed.find? key entries = some inner) :
    (Keyed.find? key more).isSome = true := by
  obtain ⟨_, keys, leaf⟩ := filled.find? found
  have both := same (key :: keys)
  rw [leaf?_map_cons, leaf?_map_cons, found, Option.bind_some] at both
  cases there : Keyed.find? key more with
  | some inner' => rfl
  | none =>
    rw [both, there] at leaf
    cases leaf

/-- Ordered values without empty maps inside are told by their leaves. -/
theorem eq_of_leaves (ordered : value.IsOrdered) (ordered' : other.IsOrdered)
    (filled : value.IsFilled) (filled' : other.IsFilled)
    (same : ∀ keys, value.leaf? keys = other.leaf? keys) : value = other := by
  induction value using induction_on_entries generalizing other with
  | leaf value form =>
    have top := same []
    obtain ⟨more, rfl⟩ | form' := other.eq_map_or_leaf
    · rw [leaf?_nil form, leaf?_map_nil] at top
      cases top
    · rw [leaf?_nil form, leaf?_nil form'] at top
      exact Option.some.inj top
  | map entries ih =>
    obtain ⟨more, rfl⟩ | form' := other.eq_map_or_leaf
    · refine congrArg Value.map (Keyed.Ordered.ext (ordered [] entries rfl) (ordered' [] more rfl)
        fun key => ?_)
      cases own : Keyed.find? key entries with
      | none =>
        rw [eq_comm, ← Option.not_isSome_iff_eq_none]
        intro found
        obtain ⟨inner, found⟩ := Option.isSome_iff_exists.1 found
        have there := find?_isSome_of_leaves filled' (fun keys => (same keys).symm) found
        rw [own] at there
        cases there
      | some inner =>
        obtain ⟨inner', own'⟩ :=
          Option.isSome_iff_exists.1 (find?_isSome_of_leaves filled same own)
        have below (keys : List String) : inner.leaf? keys = inner'.leaf? keys := by
          have both := same (key :: keys)
          rwa [leaf?_map_cons, leaf?_map_cons, own, own'] at both
        have equal := ih key inner own (ordered.find? own) (ordered'.find? own')
          (filled.find? own).1 (filled'.find? own').1 below
        rw [own', equal]
    · have top := same []
      rw [leaf?_map_nil, leaf?_nil form'] at top
      cases top

/-! ## Leaf paths -/

/-- Keys that a dotted path can have are told by the path that joins them. -/
theorem join_inj {first second : List String} (some_key : first ≠ []) (some_key' : second ≠ [])
    (keyed : ∀ key ∈ first, IsKey key) (keyed' : ∀ key ∈ second, IsKey key)
    (same : Text.join "." first = Text.join "." second) : first = second := by
  rw [← Text.segments_join some_key fun key member => (keyed key member).2,
    ← Text.segments_join some_key' fun key member => (keyed' key member).2, same]

mutual

/-- No leaf path below a path of keys is listed twice. -/
theorem leavesBelow_nodup (value : Value) (plain : value.IsPlain) {above : List String}
    (keyed : ∀ key ∈ above, IsKey key) : (value.leavesBelow (Text.join "." above)).Nodup := by
  cases value with
  | map entries =>
    rw [leavesBelow]
    exact entriesBelow_nodup entries plain.1 plain.2 keyed
  | bool | integer | float | string | list =>
    rw [leavesBelow]
    · split
      · exact List.nodup_nil
      · exact List.nodup_singleton _
    · nofun

/-- No leaf path of entries is listed twice. -/
theorem entriesBelow_nodup (entries : List (String × Value)) (ordered : Keyed.Ordered entries)
    (plain : EntriesPlain entries) {above : List String} (keyed : ∀ key ∈ above, IsKey key) :
    (entriesBelow (Text.join "." above) entries).Nodup := by
  cases entries with
  | nil => exact List.nodup_nil
  | cons entry rest =>
    obtain ⟨key, inner⟩ := entry
    obtain ⟨own, innerPlain, restPlain⟩ := plain
    obtain ⟨least, sorted⟩ := List.pairwise_cons.1 ordered
    have longer : ∀ other ∈ above ++ [key], IsKey other :=
      List.forall_mem_append.2 ⟨keyed, List.forall_mem_singleton.2 own⟩
    have extended := extendPath_join (fun other member => (keyed other member).1) key
    rw [entriesBelow, extended, List.nodup_append]
    refine ⟨leavesBelow_nodup inner innerPlain longer,
      entriesBelow_nodup rest sorted restPlain keyed, ?_⟩
    intro path first path' second same
    obtain ⟨keys, leaf, _, rfl⟩ := (mem_leavesBelow_iff inner innerPlain longer).1 first
    obtain ⟨⟨key', inner'⟩, member, keys', leaf', rfl⟩ :=
      (mem_entriesBelow_iff rest restPlain keyed).1 second
    obtain ⟨own', innerPlain'⟩ := entriesPlain_iff.1 restPlain _ member
    have keyedBelow := isKey_of_leaf? innerPlain leaf
    have keyedBelow' := isKey_of_leaf? innerPlain' leaf'
    rw [List.append_assoc, List.singleton_append] at same
    have lists : above ++ key :: keys = above ++ key' :: keys' := by
      refine join_inj (by simp) (by simp) ?_ ?_ same
      · exact List.forall_mem_append.2 ⟨keyed, List.forall_mem_cons.2 ⟨own, keyedBelow⟩⟩
      · exact List.forall_mem_append.2 ⟨keyed, List.forall_mem_cons.2 ⟨own', keyedBelow'⟩⟩
    have keys_same : key = key' := (List.cons.inj (List.append_cancel_left lists)).1
    have below := least _ member
    rw [keys_same] at below
    exact Keyed.compare_self_ne_lt key' below

end

/-- The leaf paths of a plain value are listed once each. -/
theorem leafPaths_nodup (plain : value.IsPlain) : value.leafPaths.Nodup := by
  have top : (value.leavesBelow (Text.join "." [])).Nodup := leavesBelow_nodup value plain nofun
  exact top

/-! ## Leaves as settings -/

/-- The leaf paths of a value with what is under them. -/
def settings (value : Value) : List (String × Value) :=
  value.leafPaths.filterMap fun path => (value.path? path).map (path, ·)

/-- The settings of a plain value are its leaves. -/
theorem mem_settings_iff (plain : value.IsPlain) {setting : String × Value} :
    setting ∈ value.settings ↔ value.leaf? (Text.segments setting.1) = some setting.2 := by
  rw [settings, List.mem_filterMap]
  constructor
  · intro listed
    obtain ⟨path, member, reached⟩ := listed
    obtain ⟨held, found, rfl⟩ := Option.map_eq_some_iff.1 reached
    obtain ⟨leaf, there⟩ := Option.isSome_iff_exists.1 ((mem_leafPaths_iff plain).1 member)
    have same : some leaf = some held := (at?_of_leaf? there).symm.trans found
    rw [there, same]
  · intro there
    refine ⟨setting.1, (mem_leafPaths_iff plain).2 (Option.isSome_of_eq_some there), ?_⟩
    rw [path?, at?_of_leaf? there]
    rfl

/-- The paths of the settings are the leaf paths. -/
theorem map_fst_settings (plain : value.IsPlain) :
    value.settings.map Prod.fst = value.leafPaths := by
  have each : ∀ path ∈ value.leafPaths,
      ((value.path? path).map (path, ·)).map Prod.fst = some path := by
    intro path member
    obtain ⟨leaf, there⟩ := Option.isSome_iff_exists.1 ((mem_leafPaths_iff plain).1 member)
    rw [path?, at?_of_leaf? there]
    rfl
  rw [settings, List.map_filterMap, List.filterMap_congr each, List.filterMap_some]

/-- What is a leaf is no map. -/
theorem map?_of_leaf? (found : value.leaf? keys = some leaf) : leaf.map? = none :=
  Option.isNone_iff_eq_none.1 (Option.filter_eq_some_iff.1 found).2

/-- The settings of a plain value are apart. -/
theorem areApart_settings (plain : value.IsPlain) : AreApart value.settings := by
  constructor
  case distinct =>
    rw [map_fst_settings plain]
    exact leafPaths_nodup plain
  case closed =>
    -- Below the leaf of the first path there would be that of the second one.
    intro first one second two opens
    obtain ⟨next, rest, longer⟩ := Text.segments_of_opens opens
    have upper := (mem_settings_iff plain).1 one
    have lower := at?_of_leaf? ((mem_settings_iff plain).1 two)
    rw [longer, at?_append, at?_of_leaf? upper, Option.bind_some,
      at?_cons_of_leaf (map?_of_leaf? upper)] at lower
    cases lower

/-- A value that is no map is plain. -/
theorem isPlain_of_leaf (form : value.map? = none) : value.IsPlain := by
  cases value with
  | map entries => cases form
  | _ => trivial

/-- A value that is no map holds itself only. -/
theorem eq_of_holds_leaf (form : value.map? = none) (holds : value.Holds keys other) :
    keys = [] ∧ other = value := by
  cases holds with
  | self => exact ⟨rfl, rfl⟩
  | entry => cases form

/-- The settings of a plain map, nested again, have its leaves. -/
theorem leaf?_nest_settings (plain : (Value.map entries).IsPlain) (keys : List String) :
    (nest (Value.map entries).settings).leaf? keys = (Value.map entries).leaf? keys := by
  apply Option.ext
  intro leaf
  constructor
  · intro found
    have holds := holds_of_at? (at?_of_leaf? found)
    obtain ⟨setting, member, rest, rfl, below⟩ := holds.leaf_of_nest (map?_of_leaf? found)
    have there := (mem_settings_iff plain).1 member
    obtain ⟨rfl, rfl⟩ := eq_of_holds_leaf (map?_of_leaf? there) below
    rw [List.append_nil]
    exact there
  · intro there
    have keyed := isKey_of_leaf? plain (Option.isSome_of_eq_some there)
    have some_key : keys ≠ [] := by
      rintro rfl
      cases there
    have segments := Text.segments_join some_key fun key member => (keyed key member).2
    have member : (Text.join "." keys, leaf) ∈ (Value.map entries).settings := by
      rw [mem_settings_iff plain, segments]
      exact there
    have found := path?_nest_of_apart (areApart_settings plain) member
    rw [path?, segments] at found
    rw [leaf?, found, Option.filter_some, map?_of_leaf? there]
    rfl

/-- Nested leaves leave no map inside empty. -/
theorem isFilled_nest_settings (plain : value.IsPlain) : (nest value.settings).IsFilled := by
  intro keys some_key found
  rcases (holds_of_at? found).of_nest with ⟨setting, member, rest, _, below⟩ | ⟨_, above⟩
  · have form := map?_of_leaf? ((mem_settings_iff plain).1 member)
    obtain ⟨_, same⟩ := eq_of_holds_leaf form below
    rw [← same] at form
    cases form
  · obtain ⟨setting, member, next, rest, longer⟩ := above.resolve_left some_key
    have there := path?_nest_of_apart (areApart_settings plain) member
    rw [path?, longer, at?_append, found, Option.bind_some,
      at?_empty (List.cons_ne_nil next rest)] at there
    cases there

/-- The settings of a plain map without empty maps inside, nested again, are the map. -/
theorem nest_settings (plain : (Value.map entries).IsPlain)
    (filled : (Value.map entries).IsFilled) :
    nest (Value.map entries).settings = .map entries := by
  have each : ∀ setting ∈ (Value.map entries).settings, IsPlainSetting setting := by
    intro setting member
    have there := (mem_settings_iff plain).1 member
    exact ⟨isKey_of_leaf? plain (Option.isSome_of_eq_some there),
      isPlain_of_leaf (map?_of_leaf? there)⟩
  exact eq_of_leaves (isPlain_nest each).isOrdered plain.isOrdered (isFilled_nest_settings plain)
    filled (leaf?_nest_settings plain)

/-- What is told of a value by its leaf paths. -/
structure FlattensLawfully (value : Value) : Prop where
  /-- The path to each leaf is listed once. -/
  once : ∀ keys, (value.leaf? keys).isSome = true →
    value.leafPaths.count (Text.join "." keys) = 1
  /-- Every listed path is the path to a leaf, which is found there. -/
  found : ∀ path ∈ value.leafPaths, ∃ keys leaf, path = Text.join "." keys ∧
    value.leaf? keys = some leaf ∧ value.path? path = some leaf
  /-- The leaves under their paths, nested, are the value. -/
  nested : nest value.settings = value

/-- A map whose keys, outside of lists, have no dots and are not empty, and which has no empty map
inside, is flattened lawfully. -/
theorem flattening_lawful (plain : (Value.map entries).IsPlain)
    (filled : (Value.map entries).IsFilled) : (Value.map entries).FlattensLawfully := by
  constructor
  case once =>
    intro keys leaf
    have keyed := isKey_of_leaf? plain leaf
    have some_key : keys ≠ [] := by
      rintro rfl
      cases leaf
    apply List.count_eq_one_of_mem (leafPaths_nodup plain)
    rw [mem_leafPaths_iff plain, Text.segments_join some_key fun key member => (keyed key member).2]
    exact leaf
  case found =>
    intro path member
    obtain ⟨leaf, there⟩ := Option.isSome_iff_exists.1 ((mem_leafPaths_iff plain).1 member)
    exact ⟨_, leaf, (Text.join_segments path).symm, there, at?_of_leaf? there⟩
  case nested => exact nest_settings plain filled

/-- A map with a key that another one begins, a list with an empty map in it, and a map inside. -/
def rack : List (String × Value) :=
  [("db", .map [("host", .string "h"), ("ports", .list [.integer 1, .map []])]),
    ("dbx", .bool true)]

/-- The map is flattened lawfully, to three paths. -/
theorem rack_flattened : (Value.map rack).IsPlain ∧ (Value.map rack).IsFilled ∧
    (Value.map rack).leafPaths = ["db.host", "db.ports", "dbx"] ∧
    (Value.map rack).FlattensLawfully := by
  have plain : (Value.map rack).IsPlain := by
    simp [rack, IsPlain, EntriesPlain, Keyed.Ordered, IsKey]
    decide
  have filled : (Value.map rack).IsFilled := by
    refine isFilled_map (List.forall_mem_cons.2 ⟨⟨by simp, isFilled_map ?_⟩, ?_⟩)
    · exact List.forall_mem_cons.2 ⟨⟨by simp, isFilled_of_leaf rfl⟩,
        List.forall_mem_singleton.2 ⟨by simp, isFilled_of_leaf rfl⟩⟩
    · exact List.forall_mem_singleton.2 ⟨by simp, isFilled_of_leaf rfl⟩
  exact ⟨plain, filled, by decide, flattening_lawful plain filled⟩

end Value

end CommandGrammar
