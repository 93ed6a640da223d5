import Mathlib
import CommandGrammar.Proofs.Layer.Origins
import CommandGrammar.Proofs.Value.Precedence

/-!
# Precedence among layers

A stack whose layers can all be read gives their values merged, so that a layer that comes first
wins. Later layers fill gaps: they give what no earlier one has, unless a value that is no map
hides it.
-/

namespace CommandGrammar

namespace Stack

variable {model : Model} {surroundings : Surroundings}

/-- Layers that can be read are read, and merged over what the earlier ones gave. -/
theorem readFrom_of_reads {sources : List Source} {reads : List (Source × Value)}
    (areReads : AreReads model surroundings sources reads) (layer : Nat) (start : Resolution) :
    ∃ resolution, readFrom model surroundings layer sources start = .ok resolution ∧
      resolution.value = start.value.mergeOver (reads.map Prod.snd) := by
  obtain ⟨rfl, values⟩ := areReads
  induction reads generalizing layer start with
  | nil => exact ⟨start, rfl, rfl⟩
  | cons read rest ih =>
    have own := values read List.mem_cons_self
    rw [List.map_cons, readFrom, own]
    exact ih (layer + 1) _ fun other member => values other (List.mem_cons_of_mem _ member)

/-- A stack of layers that can be read gives their values, merged. If these are ordered, the
settings have something under some keys exactly if a layer has, and on the way there the first
layer that has anything has a map. It is then what the first layer with anything there has, or a
map if that is one. -/
theorem first_layer_wins {values : List Value} (ordered : ∀ value ∈ values, value.IsOrdered) :
    (∀ (stack : Stack) (surroundings : Surroundings) (reads : List (Source × Value)),
      AreReads stack.model surroundings stack.sources reads → reads.map Prod.snd = values →
        ∃ resolution, stack.read surroundings = .ok resolution ∧
          resolution.value = .mergeAll values) ∧
    ∀ keys, keys ≠ [] →
      (((Value.mergeAll values).at? keys).isSome = true ↔
        (∃ value ∈ values, (value.at? keys).isSome = true) ∧
          ∀ above, above <+: keys → above ≠ [] → above ≠ keys →
            ∃ entries, Value.firstAt? above values = some (.map entries)) ∧
      ∀ merged, (Value.mergeAll values).at? keys = some merged →
        ∃ first, Value.firstAt? keys values = some first ∧
          (first.map? = none → merged = first) ∧
          (first.map?.isSome = true → merged.map?.isSome = true) := by
  constructor
  · intro stack surroundings reads areReads same
    rw [← same]
    exact readFrom_of_reads areReads 0 ⟨.map [], []⟩
  · intro keys some_key
    exact ⟨Value.at?_mergeAll_isSome_iff ordered some_key,
      fun merged => Value.exists_firstAt?_of_mergeAll ordered some_key⟩

/-- Settings of three layers: a host, then a host of another shape with a port and a log, then a
log of another shape. -/
def clashing : List Value := [
  .map [("db", .map [("host", .string "a")])],
  .map [("db", .map [("host", .map [("name", .string "b")]), ("port", .integer 1)]),
    ("log", .string "off")],
  .map [("db", .string "c"), ("log", .map [("level", .string "debug")])]]

/-- No files and no variables. -/
def nowhere : Surroundings := ⟨fun _ => .missing, []⟩

/-- A stack of layers that are given. -/
def clashingStack : Stack :=
  ⟨(serviceStack false []).model, clashing.map (.fixed "given")⟩

/-- The first host and the only port are kept, and the log that is no map hides the level. -/
theorem clashing_merged : (∀ value ∈ clashing, value.IsOrdered) ∧
    (∃ resolution, clashingStack.read nowhere = .ok resolution ∧
      resolution.value = .mergeAll clashing) ∧
    (Value.mergeAll clashing).at? ["db", "host"] = some (.string "a") ∧
    (Value.mergeAll clashing).at? ["db", "port"] = some (.integer 1) ∧
    (Value.mergeAll clashing).at? ["log", "level"] = none := by
  have ordered : ∀ value ∈ clashing, value.IsOrdered := by
    intro value member
    apply Value.IsPlain.isOrdered
    simp only [clashing, List.mem_cons, List.not_mem_nil, or_false] at member
    rcases member with rfl | rfl | rfl <;>
      simp [Value.IsPlain, EntriesPlain, Keyed.Ordered, IsKey] <;> decide
  obtain ⟨reads, wins⟩ := first_layer_wins ordered
  have given : AreReads clashingStack.model nowhere clashingStack.sources
      (clashing.map fun value => (.fixed "given" value, value)) := by
    refine ⟨rfl, ?_⟩
    simp [clashing, Model.read]
  have merged := reads clashingStack nowhere _ given rfl
  have between {outer inner : String} {above : List String} (inside : above <+: [outer, inner])
      (some_key : above ≠ []) (shorter : above ≠ [outer, inner]) : above = [outer] := by
    obtain nothing | ⟨rest, rfl, within⟩ := List.prefix_cons_iff.1 inside
    · exact absurd nothing some_key
    · obtain rfl | ⟨more, rfl, end_of⟩ := List.prefix_cons_iff.1 within
      · rfl
      · rw [List.prefix_nil.1 end_of] at shorter
        exact absurd rfl shorter
  have kept {outer inner : String} {value : Value} {entries : List (String × Value)}
      (above : Value.firstAt? [outer] clashing = some (.map entries))
      (first : Value.firstAt? [outer, inner] clashing = some value) (leaf : value.map? = none) :
      (Value.mergeAll clashing).at? [outer, inner] = some value := by
    obtain ⟨reached, firsts⟩ := wins [outer, inner] (List.cons_ne_nil _ _)
    obtain ⟨layer, member, found⟩ := List.exists_of_findSome?_eq_some first
    obtain ⟨merged, there⟩ := Option.isSome_iff_exists.1 (reached.2
      ⟨⟨layer, member, Option.isSome_of_eq_some found⟩, fun path inside some_key shorter =>
        ⟨entries, between inside some_key shorter ▸ above⟩⟩)
    obtain ⟨other, same, is_leaf, _⟩ := firsts merged there
    have equal : value = other := Option.some.inj (first.symm.trans same)
    rw [there, is_leaf (equal ▸ leaf), equal]
  refine ⟨ordered, merged, kept rfl rfl rfl, kept rfl rfl rfl, ?_⟩
  have reached := (wins ["log", "level"] (List.cons_ne_nil _ _)).1
  by_contra found
  obtain ⟨entries, above⟩ := (reached.1 (Option.isSome_iff_ne_none.2 found)).2 ["log"] (by simp)
    (by simp) (by simp)
  cases above

end Stack

end CommandGrammar
