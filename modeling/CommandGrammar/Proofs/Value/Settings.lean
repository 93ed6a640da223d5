import Mathlib
import CommandGrammar.Proofs.Value.Dotted

/-!
# Settings one after the other

A setting is in the way of another one if their paths are equal, or if one path opens the other one.
What was set last under a path is there, and it stays until something in the way is set. Settings of
which none is in the way of another one are all there, in whatever order they come. This holds of
any paths: the empty one, and those with empty segments, are paths like all others.
-/

namespace CommandGrammar

namespace Value

variable {settings before after others : List (String × Value)} {path : String} {value : Value}

/-- A setting is there if no later one is in its way. -/
theorem path?_nest_of_later (later : ∀ setting ∈ after, setting.1 ≠ path ∧
      ¬Text.Opens setting.1 path ∧ ¬Text.Opens path setting.1) :
    (nest (before ++ (path, value) :: after)).path? path = some value := by
  have split : storeAll (before ++ (path, value) :: after) [] =
      storeAll after (storeAt value (Text.segments path) (storeAll before [])) := by
    rw [storeAll, List.foldl_append, List.foldl_cons]
    rfl
  have unset : after.reverse.lookup path = none := by
    rw [List.lookup_eq_none_iff]
    intro setting member
    have differs := (later setting (List.mem_reverse.1 member)).1
    exact bne_iff_ne.2 (Ne.symm differs)
  rw [nest_eq, split, path?_storeAll fun setting member _ => (later setting member).2, unset,
    Option.none_or, path?, at?_storeAt_self (Text.segments_ne_nil path)]

/-- No path is set twice, and none opens another one. -/
structure AreApart (settings : List (String × Value)) : Prop where
  /-- No two settings have the same path. -/
  distinct : (settings.map Prod.fst).Nodup
  /-- No path, followed by a dot, begins another one. -/
  closed : ∀ first ∈ settings, ∀ second ∈ settings, ¬Text.Opens first.1 second.1

/-- The paths of two of several settings that are apart are apart. -/
theorem AreApart.apart (each : AreApart settings) {first second : String × Value}
    (one : first ∈ settings) (two : second ∈ settings) (differ : first ≠ second) :
    Apart (Text.segments first.1) (Text.segments second.1) := by
  have paths : first.1 ≠ second.1 := fun same =>
    differ (List.inj_on_of_nodup_map each.distinct one two same)
  exact Text.apart_segments paths (each.closed first one second two)
    (each.closed second two first one)

/-- Every one of several settings that are apart is there. -/
theorem path?_nest_of_apart (each : AreApart settings) {setting : String × Value}
    (member : setting ∈ settings) : (nest settings).path? setting.1 = some setting.2 := by
  obtain ⟨before, after, rfl⟩ := List.append_of_mem member
  apply path?_nest_of_later
  intro later inside
  have listed : later ∈ before ++ setting :: after :=
    List.mem_append_right _ (List.mem_cons_of_mem _ inside)
  refine ⟨fun same => ?_, each.closed later listed setting member,
    each.closed setting member later listed⟩
  -- The path would be listed twice.
  have distinct := each.distinct
  rw [List.map_append, List.map_cons] at distinct
  have alone := (List.nodup_cons.1 (List.nodup_append.1 distinct).2.1).1
  exact alone (same ▸ List.mem_map_of_mem inside)

/-- Settings that are apart are nested to the same map in any order. -/
theorem nest_perm (each : AreApart settings) (permuted : settings.Perm others) :
    nest others = nest settings := by
  have commutes : ∀ first ∈ settings, ∀ second ∈ settings, ∀ entries : List (String × Value),
      storeAt second.2 (Text.segments second.1)
          (storeAt first.2 (Text.segments first.1) entries) =
        storeAt first.2 (Text.segments first.1)
          (storeAt second.2 (Text.segments second.1) entries) := by
    intro first one second two entries
    by_cases same : first = second
    · rw [same]
    · exact storeAt_comm (each.apart two one (Ne.symm same)) second.2 first.2 entries
  exact congrArg Value.map (permuted.foldl_eq' commutes []).symm

/-- What a nested map has of its settings. -/
structure NestsLawfully (settings : List (String × Value)) : Prop where
  /-- It has the last setting. -/
  last : ∀ before path value, settings = before ++ [(path, value)] →
    (nest settings).path? path = some value
  /-- It has a setting as long as no later one has the same path, or a path that opens its path, or
  a path that its path opens. -/
  kept : ∀ before path value after, settings = before ++ (path, value) :: after →
    (∀ setting ∈ after, setting.1 ≠ path ∧ ¬Text.Opens setting.1 path ∧
      ¬Text.Opens path setting.1) →
    (nest settings).path? path = some value
  /-- It has all settings if no path is equal to another one or opens another one. -/
  all : AreApart settings → ∀ setting ∈ settings, (nest settings).path? setting.1 = some setting.2
  /-- Then their order does not matter. -/
  unordered : AreApart settings → ∀ others, settings.Perm others → nest others = nest settings

/-- Settings of any paths, in any order, are nested lawfully. -/
theorem nesting_lawful (settings : List (String × Value)) : NestsLawfully settings := by
  constructor
  case last =>
    rintro before path value rfl
    exact path?_nest_of_later nofun
  case kept =>
    rintro before path value after rfl later
    exact path?_nest_of_later later
  case all => exact fun each setting member => path?_nest_of_apart each member
  case unordered => exact fun each others permuted => nest_perm each permuted

/-- The empty path and a path that begins with a dot: the former opens the latter, which replaces
it, and is replaced by it. -/
example : ((nest [("", .bool true), (".a", .bool false)]).path? "").bind bool? = none ∧
    ((nest [(".a", .bool false), ("", .bool true)]).path? "").bind bool? = some true := by
  decide

end Value

end CommandGrammar
