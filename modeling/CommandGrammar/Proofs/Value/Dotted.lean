import Mathlib
import CommandGrammar.Proofs.Value.Stored

/-!
# Dotted paths side by side

Settings are nested under the segments of their dotted paths. A path is stored into the value of
another one only if that, followed by a dot, begins it, and a nested map tells the settings of all
paths of which none begins another one in this way. What a nested map has for its leaves lies under
the paths of the settings, whatever their values are.
-/

namespace CommandGrammar

namespace Text

/-- The first text, followed by a dot, begins the second. -/
def Opens (first second : String) : Prop := (first ++ ".").toList <+: second.toList

instance (first second : String) : Decidable (Opens first second) :=
  inferInstanceAs (Decidable (_ <+: _))

/-- The characters of names, each followed by a dot. -/
def dotted (names : List String) : List Char := names.flatMap fun name => (name ++ ".").toList

/-- Names with dots between them and after them. -/
theorem toList_join_dot {names : List String} (some_name : names ≠ []) :
    (join "." names ++ ".").toList = dotted names := by
  induction names with
  | nil => exact absurd rfl some_name
  | cons name rest ih =>
    cases rest with
    | nil => exact (List.append_nil _).symm
    | cons next others =>
      rw [join_cons_cons, String.append_assoc, String.toList_append,
        ih (List.cons_ne_nil next others)]
      rfl

/-- A text with a dot after it begins another one with a dot after it exactly if the texts are
equal, or the first one opens the other. -/
theorem prefix_dot_iff {first second : String} :
    (first ++ ".").toList <+: (second ++ ".").toList ↔ first = second ∨ Opens first second := by
  have ends (text : String) : (text ++ ".").toList = text.toList ++ ['.'] := String.toList_append
  rw [Opens, ends second, List.prefix_concat_iff, ← ends second, String.toList_inj,
    String.append_left_inj]

/-- The first of several texts opens the path that joins them. -/
theorem opens_join (text next : String) (others : List String) :
    Opens text (join "." (text :: next :: others)) := by
  have parts : (join "." (text :: next :: others)).toList =
      (text ++ ".").toList ++ (join "." (next :: others)).toList := String.toList_append
  exact ⟨_, parts.symm⟩

/-- If the segments of a path lead to those of another one, the paths are equal or the first one
opens the other. -/
theorem eq_or_opens_of_segments {first second : String}
    (leads : segments first <+: segments second) : first = second ∨ Opens first second := by
  obtain ⟨rest, same⟩ := leads
  have begins : dotted (segments first) <+: dotted (segments second) := by
    rw [← same, dotted, dotted, List.flatMap_append]
    exact List.prefix_append _ _
  rw [← toList_join_dot (segments_ne_nil first), ← toList_join_dot (segments_ne_nil second),
    join_segments, join_segments] at begins
  exact prefix_dot_iff.1 begins

/-- The segments of different paths are apart, if neither path opens the other one. -/
theorem apart_segments {first second : String} (differ : first ≠ second)
    (before : ¬Opens first second) (after : ¬Opens second first) :
    Apart (segments first) (segments second) := by
  constructor
  · intro leads
    exact (eq_or_opens_of_segments leads).elim differ before
  · intro leads
    exact (eq_or_opens_of_segments leads).elim (differ ∘ Eq.symm) after

end Text

namespace Value

variable {value held leaf : Value} {entries : List (String × Value)} {key path : String}
  {keys stored : List String} {settings : List (String × Value)}

/-- Settings stored into a map have under a path what the last setting of that path has, or else
what the map had, if no other path opens it or is opened by it. -/
theorem path?_storeAll
    (apart : ∀ setting ∈ settings, setting.1 ≠ path →
      ¬Text.Opens setting.1 path ∧ ¬Text.Opens path setting.1) :
    (Value.map (storeAll settings entries)).path? path =
      (settings.reverse.lookup path).or ((Value.map entries).path? path) := by
  induction settings generalizing entries with
  | nil => rfl
  | cons setting rest ih =>
    obtain ⟨own, others⟩ := List.forall_mem_cons.1 apart
    rw [storeAll_cons, ih others, List.reverse_cons, List.lookup_append, Option.or_assoc]
    congr 1
    by_cases same : setting.1 = path
    · subst same
      rw [path?, at?_storeAt_self (Text.segments_ne_nil _)]
      simp [List.lookup]
    · obtain ⟨before, after⟩ := own same
      rw [path?, at?_storeAt_of_apart (Text.apart_segments same before after)]
      simp [List.lookup, path?, beq_false_of_ne (Ne.symm same)]

/-- Nested settings have under a path what the last setting of that path has, if no other path opens
it or is opened by it. -/
theorem path?_nest
    (apart : ∀ setting ∈ settings, setting.1 ≠ path →
      ¬Text.Opens setting.1 path ∧ ¬Text.Opens path setting.1) :
    (nest settings).path? path = settings.reverse.lookup path := by
  rw [nest_eq, path?_storeAll apart, path?, at?_empty (Text.segments_ne_nil path), Option.or_none]

/-! ## Leaf paths -/

/-- Keys lead through entries of maps from a value to one that it holds. -/
inductive Holds : Value → List String → Value → Prop where
  /-- No key leads to the value. -/
  | self {value : Value} : Holds value [] value
  /-- The key of an entry leads to its value. -/
  | entry {entries : List (String × Value)} {key : String} {inner held : Value}
      {keys : List String} (member : (key, inner) ∈ entries) (below : Holds inner keys held) :
      Holds (.map entries) (key :: keys) held

/-- What keys lead to is held. -/
theorem holds_of_at? (found : value.at? keys = some held) : value.Holds keys held := by
  induction keys generalizing value with
  | nil =>
    cases found
    exact .self
  | cons key keys ih =>
    obtain ⟨entries, rfl⟩ | form := value.eq_map_or_leaf
    · rw [at?_map_cons] at found
      obtain ⟨inner, own, below⟩ := Option.bind_eq_some_iff.1 found
      exact .entry (Keyed.mem_of_find? own) (ih below)
    · rw [at?_cons_of_leaf form] at found
      cases found

/-- Keys lead to a place above that of a path: some of its keys follow them. -/
def IsAbove (keys path : List String) : Prop := ∃ next rest, path = keys ++ next :: rest

/-- An empty map holds itself only. -/
theorem eq_of_holds_empty (holds : (Value.map []).Holds keys held) :
    keys = [] ∧ held = .map [] := by
  cases holds with
  | self => exact ⟨rfl, rfl⟩
  | entry member => cases member

/-- What is held below a key to store further into is held by the map, or is an empty map made
there. -/
theorem Holds.of_under (holds : (Value.map (under key entries)).Holds keys held) :
    (Value.map entries).Holds (key :: keys) held ∨ keys = [] ∧ held = .map [] := by
  rw [under] at holds
  cases found : Keyed.find? key entries with
  | none =>
    rw [found] at holds
    exact .inr (eq_of_holds_empty holds)
  | some inner =>
    rw [found] at holds
    obtain ⟨more, rfl⟩ | plain := inner.eq_map_or_leaf
    · exact .inl (.entry (Keyed.mem_of_find? found) holds)
    · rw [Option.bind_some, plain] at holds
      exact .inr (eq_of_holds_empty holds)

/-- What a map holds into which a value was stored under some keys: what the value holds, under
these keys, the maps above it, and what the map held before. -/
theorem Holds.of_storeAt (holds : (Value.map (storeAt value stored entries)).Holds keys held) :
    (∃ rest, keys = stored ++ rest ∧ value.Holds rest held) ∨
      (IsAbove keys stored ∧ held.map?.isSome = true) ∨ (Value.map entries).Holds keys held := by
  induction stored generalizing entries keys with
  | nil => exact .inr (.inr holds)
  | cons key more ih =>
    rw [storeAt_cons] at holds
    cases holds with
    | self => exact .inr (.inl ⟨⟨key, more, rfl⟩, rfl⟩)
    | @entry _ other inner _ rest member below =>
      rcases Keyed.mem_insert member with same | old
      · obtain ⟨rfl, rfl⟩ := Prod.mk.inj same
        split at below
        · next last => exact .inl ⟨rest, by rw [last]; rfl, below⟩
        · next further =>
          rcases ih below with ⟨later, rfl, own⟩ | ⟨⟨next, later, rfl⟩, mapped⟩ | before
          · exact .inl ⟨later, rfl, own⟩
          · exact .inr (.inl ⟨⟨next, later, rfl⟩, mapped⟩)
          · rcases before.of_under with own | ⟨rfl, rfl⟩
            · exact .inr (.inr own)
            · obtain ⟨next, later, rfl⟩ := List.exists_cons_of_ne_nil further
              exact .inr (.inl ⟨⟨next, later, rfl⟩, rfl⟩)
      · exact .inr (.inr (.entry old below))

/-- What nested settings hold: what the settings' values hold, under the segments of their paths,
and the maps above these. -/
theorem Holds.of_nest (holds : (nest settings).Holds keys held) :
    (∃ setting ∈ settings, ∃ rest, keys = Text.segments setting.1 ++ rest ∧
      setting.2.Holds rest held) ∨
    (held.map?.isSome = true ∧
      (keys = [] ∨ ∃ setting ∈ settings, IsAbove keys (Text.segments setting.1))) := by
  have stored (settings entries : List (String × Value))
      (holds : (Value.map (storeAll settings entries)).Holds keys held) :
      (∃ setting ∈ settings, ∃ rest, keys = Text.segments setting.1 ++ rest ∧
        setting.2.Holds rest held) ∨
      (held.map?.isSome = true ∧ ∃ setting ∈ settings, IsAbove keys (Text.segments setting.1)) ∨
      (Value.map entries).Holds keys held := by
    induction settings generalizing entries with
    | nil => exact .inr (.inr holds)
    | cons setting rest ih =>
      rcases ih _ holds with ⟨other, later, own⟩ | ⟨mapped, other, later, above⟩ | before
      · exact .inl ⟨other, List.mem_cons_of_mem _ later, own⟩
      · exact .inr (.inl ⟨mapped, other, List.mem_cons_of_mem _ later, above⟩)
      · rcases before.of_storeAt with own | ⟨above, mapped⟩ | before
        · exact .inl ⟨setting, List.mem_cons_self, own⟩
        · exact .inr (.inl ⟨mapped, setting, List.mem_cons_self, above⟩)
        · exact .inr (.inr before)
  rcases stored settings [] holds with own | ⟨mapped, above⟩ | before
  · exact .inl own
  · exact .inr ⟨mapped, .inr above⟩
  · obtain ⟨rfl, rfl⟩ := eq_of_holds_empty before
    exact .inr ⟨rfl, .inl rfl⟩

/-- The leaves of nested settings are those of the settings' values, under the segments of their
paths. -/
theorem Holds.leaf_of_nest (form : leaf.map? = none) (holds : (nest settings).Holds keys leaf) :
    ∃ setting ∈ settings, ∃ rest, keys = Text.segments setting.1 ++ rest ∧
      setting.2.Holds rest leaf := by
  refine holds.of_nest.resolve_right fun above => ?_
  rw [form] at above
  cases above.1

/-- A path that keys extend. -/
def extendBy (path : String) (keys : List String) : String := keys.foldl extendPath path

mutual

/-- The leaf paths below a path are the extensions of it by keys that lead to a leaf, but for the
empty one. -/
theorem mem_leavesBelow (value : Value) {above path : String} :
    path ∈ value.leavesBelow above ↔
      ∃ keys leaf, value.Holds keys leaf ∧ leaf.map? = none ∧ path = extendBy above keys ∧
        path ≠ "" := by
  cases value with
  | map entries =>
    rw [leavesBelow, mem_entriesBelow entries]
    constructor
    · intro below
      obtain ⟨⟨key, inner⟩, member, keys, leaf, holds, rest⟩ := below
      exact ⟨key :: keys, leaf, .entry member holds, rest⟩
    · intro reached
      obtain ⟨_, leaf, holds, form, rest⟩ := reached
      cases holds with
      | self => cases form
      | entry member below => exact ⟨_, member, _, leaf, below, form, rest⟩
  | bool | integer | float | string | list =>
    rw [leavesBelow]
    · constructor
      · intro own
        split at own
        · cases own
        · next filled =>
          obtain rfl := List.mem_singleton.1 own
          exact ⟨[], _, .self, rfl, rfl, filled⟩
      · intro reached
        obtain ⟨_, _, ⟨⟩, _, same, filled⟩ := reached
        have own : path = above := same
        rw [if_neg (own ▸ filled), own]
        exact List.mem_singleton_self above
    · nofun

/-- The leaf paths of entries are those of their values, below the keys. -/
theorem mem_entriesBelow (entries : List (String × Value)) {above path : String} :
    path ∈ entriesBelow above entries ↔
      ∃ entry ∈ entries, ∃ keys leaf, entry.2.Holds keys leaf ∧ leaf.map? = none ∧
        path = extendBy above (entry.1 :: keys) ∧ path ≠ "" := by
  cases entries with
  | nil => simp [entriesBelow]
  | cons entry rest =>
    obtain ⟨key, inner⟩ := entry
    rw [entriesBelow, List.mem_append, mem_leavesBelow inner, mem_entriesBelow rest,
      List.exists_mem_cons_iff]
    rfl

end

/-- A text that keys extend stands in front of them, with a dot before each. -/
theorem extendBy_eq_join (filled : path ≠ "") :
    extendBy path keys = Text.join "." (path :: keys) := by
  induction keys generalizing path with
  | nil => rfl
  | cons key rest ih =>
    have longer : path ++ "." ++ key ≠ "" := by
      rw [String.append_assoc]
      exact fun empty => filled (String.append_eq_empty_iff.1 empty).1
    have step : extendBy path (key :: rest) = extendBy (path ++ "." ++ key) rest := by
      rw [extendBy, List.foldl_cons, extendPath, if_neg filled, extendBy]
    rw [step, ih longer]
    cases rest with
    | nil => rfl
    | cons next others => simp only [Text.join_cons_cons, String.append_assoc]

/-- The segments of a path that does not begin with a dot extend the empty path to it. -/
theorem extendBy_segments (clear : ¬Text.Opens "" path) :
    extendBy "" (Text.segments path) = path := by
  have joined := Text.join_segments path
  obtain ⟨first, rest, same⟩ := List.exists_cons_of_ne_nil (Text.segments_ne_nil path)
  rw [same] at joined ⊢
  have step : extendBy "" (first :: rest) = extendBy first rest := by
    rw [extendBy, List.foldl_cons, extendPath, if_pos rfl, extendBy]
  rw [step]
  by_cases filled : first = ""
  · cases rest with
    | nil => exact joined
    | cons next others =>
      -- The path would be the dot after the empty segment, and what follows.
      refine absurd ?_ clear
      rw [← joined, filled]
      exact Text.opens_join "" next others
  · rw [extendBy_eq_join filled, joined]

/-- A text either is not changed by keys that extend it, or opens what they make of it. -/
theorem extendBy_cases (filled : path ≠ "") (keys : List String) :
    keys = [] ∨ Text.Opens path (extendBy path keys) := by
  cases keys with
  | nil => exact .inl rfl
  | cons key rest =>
    rw [extendBy_eq_join filled]
    exact .inr (Text.opens_join path key rest)

/-- In a value that is in order along keys, what it holds there is what they lead to. -/
theorem IsOrderedTo.at?_of_holds (ordered : value.IsOrderedTo keys)
    (holds : value.Holds keys held) : value.at? keys = some held := by
  induction holds with
  | self => rfl
  | entry member below ih =>
    obtain ⟨sorted, later⟩ := ordered _ rfl
    have found := Keyed.find?_of_mem sorted member
    rw [at?_map_cons, found, Option.bind_some]
    exact ih (later _ found)

/-- Nested settings are in order along a path that no other path opens. -/
theorem isOrderedTo_nest
    (apart : ∀ setting ∈ settings, setting.1 ≠ path → ¬Text.Opens setting.1 path) :
    (nest settings).IsOrderedTo (Text.segments path) := by
  have stored (entries : List (String × Value))
      (ordered : (Value.map entries).IsOrderedTo (Text.segments path)) :
      (Value.map (storeAll settings entries)).IsOrderedTo (Text.segments path) := by
    induction settings generalizing entries with
    | nil => exact ordered
    | cons setting rest ih =>
      obtain ⟨own, others⟩ := List.forall_mem_cons.1 apart
      refine ih others _ (ordered.storeAt setting.2 fun leads => ?_)
      by_contra differs
      have other : setting.1 ≠ path := fun same => differs (congrArg Text.segments same)
      exact (Text.eq_or_opens_of_segments leads).elim other (own other)
  exact stored [] isOrderedTo_empty

/-- A path that does not begin with a dot is a leaf path of nested settings exactly if it leads to a
leaf, as long as no other path opens it. -/
theorem mem_leafPaths_nest (filled : path ≠ "") (clear : ¬Text.Opens "" path)
    (each : ∀ setting ∈ settings, setting.1 ≠ "" ∧ ¬Text.Opens "" setting.1)
    (apart : ∀ setting ∈ settings, ¬Text.Opens setting.1 path) :
    path ∈ (nest settings).leafPaths ↔
      ∃ leaf, (nest settings).path? path = some leaf ∧ leaf.map? = none := by
  rw [leafPaths, mem_leavesBelow]
  constructor
  · intro reached
    obtain ⟨keys, leaf, holds, form, same, _⟩ := reached
    obtain ⟨setting, member, rest, rfl, _⟩ := holds.leaf_of_nest form
    obtain ⟨some_text, plain⟩ := each setting member
    have extended : path = extendBy setting.1 rest := by
      rw [same, extendBy, List.foldl_append, ← extendBy, ← extendBy, extendBy_segments plain]
    rcases extendBy_cases some_text rest with rfl | opens
    · rw [List.append_nil] at holds
      have own : path = setting.1 := extended
      rw [← own] at holds
      have ordered := isOrderedTo_nest fun other listed _ => apart other listed
      exact ⟨leaf, ordered.at?_of_holds holds, form⟩
    · rw [← extended] at opens
      exact absurd opens (apart setting member)
  · intro reached
    obtain ⟨leaf, found, form⟩ := reached
    exact ⟨_, leaf, holds_of_at? found, form, (extendBy_segments clear).symm, filled⟩

end Value

end CommandGrammar
