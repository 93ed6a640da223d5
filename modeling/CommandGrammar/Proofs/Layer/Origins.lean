import Mathlib
import CommandGrammar.Layer.Stack
import CommandGrammar.Proofs.Layer.Plain
import CommandGrammar.Proofs.Value.Merge

/-!
# Origins of settings

Settings are merged as trees, and origins are kept by path: a path has as its origin the first layer
that has a leaf there, even if an earlier layer has something else in the way of that leaf. So
every leaf of the merged settings has its origin, with the value that the layer read, but a path
with an origin need not lead to a leaf.
-/

namespace CommandGrammar

namespace Keyed

variable {κ α : Type} [Ord κ] [Std.LawfulEqOrd κ] [DecidableEq κ]

/-- After a value was stored under a key that may be free, a key has what it had before, or else
the value if it is the key. -/
theorem find?_insertNew (key other : κ) (value : α) (entries : Keyed κ α) :
    find? other (insertNew key value entries) =
      (find? other entries).or (if other = key then some value else none) := by
  rw [insertNew]
  by_cases same : other = key
  · subst same
    cases found : find? other entries with
    | none => rw [if_neg (by simp), find?_insert_self, if_pos rfl, Option.none_or]
    | some old => rw [if_pos (by simp), found, Option.some_or]
  · rw [if_neg same, Option.or_none]
    split
    · rfl
    · exact find?_insert_of_ne same value entries

end Keyed

namespace Stack

variable {model : Model} {surroundings : Surroundings} {path : String}

/-- A path keeps the origin it has, and gets a new one if it is among the paths. -/
theorem find?_recordOrigins (origin : Origin) (paths : List String)
    (origins : Keyed String Origin) :
    Keyed.find? path (recordOrigins origin paths origins) =
      (Keyed.find? path origins).or (if path ∈ paths then some origin else none) := by
  induction paths generalizing origins with
  | nil => simp [recordOrigins]
  | cons first rest ih =>
    have step : recordOrigins origin (first :: rest) origins =
        recordOrigins origin rest (Keyed.insertNew first origin origins) := rfl
    rw [step, ih, Keyed.find?_insertNew, Option.or_assoc]
    by_cases same : path = first
    · simp [same]
    · simp [same]

/-- The first layer with a leaf at a path, given what layers read from a place on. -/
def firstWith? (path : String) : Nat → List (Source × Value) → Option Origin
  | _, [] => none
  | layer, (source, value) :: rest =>
    if path ∈ value.leafPaths then some ⟨source.name, layer⟩ else firstWith? path (layer + 1) rest

/-- The first layer with a leaf has one, and those before it have none. -/
theorem firstWith?_eq_some {reads : List (Source × Value)} {layer : Nat} {origin : Origin}
    (found : firstWith? path layer reads = some origin) :
    ∃ before source value later, reads = before ++ (source, value) :: later ∧
      origin = ⟨source.name, layer + before.length⟩ ∧ path ∈ value.leafPaths ∧
      ∀ read ∈ before, path ∉ read.2.leafPaths := by
  induction reads generalizing layer with
  | nil => cases found
  | cons read rest ih =>
    obtain ⟨source, value⟩ := read
    rw [firstWith?] at found
    split at found
    · next leaf =>
      cases found
      exact ⟨[], source, value, rest, rfl, rfl, leaf, by simp⟩
    · next missing =>
      obtain ⟨before, other, leaf, later, rfl, rfl, member, none_before⟩ := ih found
      refine ⟨(source, value) :: before, other, leaf, later, rfl, ?_, member,
        List.forall_mem_cons.2 ⟨missing, none_before⟩⟩
      rw [List.length_cons, Nat.add_assoc, Nat.add_comm 1]

/-- Some layer is the first one with a leaf if there is one. -/
theorem firstWith?_isSome {reads : List (Source × Value)} (layer : Nat)
    (member : ∃ read ∈ reads, path ∈ read.2.leafPaths) :
    (firstWith? path layer reads).isSome = true := by
  induction reads generalizing layer with
  | nil =>
    obtain ⟨read, inside, _⟩ := member
    cases inside
  | cons read rest ih =>
    obtain ⟨source, value⟩ := read
    rw [firstWith?]
    split
    · rfl
    · next missing =>
      obtain ⟨other, inside, leaf⟩ := member
      rcases List.mem_cons.1 inside with rfl | later
      · exact absurd leaf missing
      · exact ih _ ⟨other, later, leaf⟩

/-- What the layers of a stack read: a value for each source, in order. -/
structure AreReads (model : Model) (surroundings : Surroundings) (sources : List Source)
    (reads : List (Source × Value)) : Prop where
  /-- They are read from the sources. -/
  sources : reads.map Prod.fst = sources
  /-- Each of them is read. -/
  values : ∀ read ∈ reads, model.read surroundings read.1 = .ok read.2

/-- Reading layers merges what they read, and records for every path the first one with a leaf. -/
theorem readFrom_eq_ok {layer : Nat} {sources : List Source} {start resolution : Resolution}
    (done : readFrom model surroundings layer sources start = .ok resolution) :
    ∃ reads, AreReads model surroundings sources reads ∧
      resolution.value = (reads.map Prod.snd).foldl
        (fun base overlay => base.merge .preferBase overlay) start.value ∧
      ∀ path, Keyed.find? path resolution.origins =
        (Keyed.find? path start.origins).or (firstWith? path layer reads) := by
  induction sources generalizing layer start with
  | nil =>
    cases done
    exact ⟨[], ⟨rfl, by simp⟩, rfl, fun path => (Option.or_none).symm⟩
  | cons source rest ih =>
    rw [readFrom] at done
    obtain ⟨value, own, done⟩ := bind_eq_ok_iff.1 done
    obtain ⟨reads, areReads, merged, origins⟩ := ih done
    refine ⟨(source, value) :: reads, ⟨?_, ?_⟩, merged, fun path => ?_⟩
    · rw [List.map_cons, areReads.sources]
    · exact List.forall_mem_cons.2 ⟨own, areReads.values⟩
    · rw [origins, find?_recordOrigins, Option.or_assoc, firstWith?]
      split
      · rw [Option.some_or]
      · rw [Option.none_or]

/-- A stack that is read gives the merged values of its layers, and records for every path the first
layer with a leaf there. -/
theorem read_eq_ok {stack : Stack} {resolution : Resolution}
    (done : stack.read surroundings = .ok resolution) :
    ∃ reads, AreReads stack.model surroundings stack.sources reads ∧
      resolution.value = .mergeAll (reads.map Prod.snd) ∧
      ∀ path, Keyed.find? path resolution.origins = firstWith? path 0 reads := by
  obtain ⟨reads, areReads, merged, origins⟩ := readFrom_eq_ok done
  exact ⟨reads, areReads, merged, fun path => origins path⟩

/-- The model of a stack is that of its schema. -/
theorem ofSchema_eq_ok {schema : Command} {sources : List Source} {withDefaults : Bool}
    {stack : Stack} (made : ofSchema schema sources withDefaults = .ok stack) :
    Model.ofSchema schema = .ok stack.model := by
  obtain ⟨model, modelled, built⟩ := bind_eq_ok_iff.1 made
  have same : stack.model = model := by
    dsimp only at built
    generalize (if withDefaults = true then sources ++ [.defaults] else sources) = layers at built
    cases layers with
    | nil => cases built
    | cons source rest =>
      cases built
      rfl
  rw [same]
  exact mapError_eq_ok_iff.1 modelled

/-- Every leaf of the settings of a stack has an origin. The origin of a path is the first layer
that has a leaf there, and if that leaf is one of the settings they have the layer's value there.
It is one exactly if the layers before, merged, have nothing in the way of it. -/
theorem origins_of_read {schema : Command} {sources : List Source} {withDefaults : Bool}
    {stack : Stack} (made : ofSchema schema sources withDefaults = .ok stack)
    (plain : stack.model.IsPlain) (given : ∀ source ∈ stack.sources, source.IsPlain)
    {resolution : Resolution} (done : stack.read surroundings = .ok resolution) :
    ∃ reads, AreReads stack.model surroundings stack.sources reads ∧
      resolution.value = .mergeAll (reads.map Prod.snd) ∧
      (∀ path ∈ resolution.value.leafPaths,
        (Keyed.find? path resolution.origins).isSome = true) ∧
      ∀ path origin, Keyed.find? path resolution.origins = some origin →
        ∃ before source value later, reads = before ++ (source, value) :: later ∧
          origin = ⟨source.name, before.length⟩ ∧ path ∈ value.leafPaths ∧
          (∀ read ∈ before, path ∉ read.2.leafPaths) ∧
          (path ∈ resolution.value.leafPaths ↔
            (Value.mergeAll (before.map Prod.snd)).isFree (Text.segments path) = true) ∧
          (path ∈ resolution.value.leafPaths →
            resolution.value.path? path = value.path? path) := by
  obtain ⟨reads, areReads, merged, origins⟩ := read_eq_ok done
  have readPlain : ∀ read ∈ reads, read.2.IsPlain := by
    intro read member
    have source : read.1 ∈ stack.sources := areReads.sources ▸ List.mem_map_of_mem member
    exact Model.isPlain_read (ofSchema_eq_ok made) plain (given _ source)
      (areReads.values read member)
  have valuesPlain : ∀ value ∈ reads.map Prod.snd, value.IsPlain :=
    List.forall_mem_map.2 readPlain
  have settingsPlain : resolution.value.IsPlain := merged ▸ Value.isPlain_mergeAll valuesPlain
  refine ⟨reads, areReads, merged, fun path leaf => ?_, fun path origin found => ?_⟩
  · rw [Value.mem_leafPaths_iff settingsPlain, merged] at leaf
    obtain ⟨value, member, own⟩ := Value.exists_of_leaf?_mergeAll valuesPlain leaf
    obtain ⟨read, inside, rfl⟩ := List.mem_map.1 member
    rw [origins]
    exact firstWith?_isSome 0
      ⟨read, inside, (Value.mem_leafPaths_iff (readPlain read inside)).2 own⟩
  · rw [origins] at found
    obtain ⟨before, source, value, later, rfl, rfl, leaf, noneBefore⟩ := firstWith?_eq_some found
    have valuePlain := readPlain (source, value) (by simp)
    have beforePlain : ∀ read ∈ before, read.2.IsPlain := fun read member =>
      readPlain read (by simp [member])
    obtain ⟨own, reached⟩ :=
      Option.isSome_iff_exists.1 ((Value.mem_leafPaths_iff valuePlain).1 leaf)
    have first : ∀ other ∈ before.map Prod.snd, other.leaf? (Text.segments path) = none := by
      refine List.forall_mem_map.2 fun read member => ?_
      have missing := noneBefore read member
      rwa [Value.mem_leafPaths_iff (beforePlain read member), Bool.not_eq_true,
        Option.isSome_eq_false_iff, Option.isNone_iff_eq_none] at missing
    have settled : resolution.value.leaf? (Text.segments path) =
        if (Value.mergeAll (before.map Prod.snd)).isFree (Text.segments path) then some own
        else none := by
      rw [merged, List.map_append, List.map_cons]
      exact Value.leaf?_mergeAll
        (List.forall_mem_map.2 fun read member => readPlain read (by simp [member])) valuePlain
        first (List.forall_mem_map.2 beforePlain) reached
    have kept_iff : path ∈ resolution.value.leafPaths ↔
        (Value.mergeAll (before.map Prod.snd)).isFree (Text.segments path) = true := by
      rw [Value.mem_leafPaths_iff settingsPlain, settled]
      split <;> simp [*]
    refine ⟨before, source, value, later, rfl, by rw [Nat.zero_add], leaf, noneBefore, kept_iff,
      fun kept => ?_⟩
    rw [if_pos (kept_iff.1 kept)] at settled
    exact (Value.at?_of_leaf? settled).trans (Value.at?_of_leaf? reached).symm

/-- A command with a subcommand for the host of a database, which may be repeated. -/
def service (repeated : Bool) : Command :=
  { name := "app"
    subcommands := [
      { name := "db"
        params := [.option ["--host"]]
        multiple := repeated }] }

/-- Its layers: a command line, the environment and the defaults. -/
def serviceStack (repeated : Bool) (arguments : List String) : Stack :=
  ⟨⟨.ofCommand 0 none (service repeated), Node.below 0 (service repeated)⟩,
    [.commandLine arguments true, .environment "app", .defaults]⟩

/-- An environment with a host. -/
def serviceSurroundings : Surroundings := ⟨fun _ => .missing, [("APP_DB_HOST", "c")]⟩

/-- A host on the command line hides the one in the environment, and is the only leaf. -/
theorem service_origins : ∃ resolution,
    (serviceStack false ["app", "db", "--host", "a"]).read serviceSurroundings = .ok resolution ∧
      resolution.origins = [("db.host", ⟨"cli", 0⟩)] ∧
      ∀ path ∈ resolution.value.leafPaths,
        (Keyed.find? path resolution.origins).isSome = true := by
  have made : ofSchema (service false) [.commandLine ["app", "db", "--host", "a"] true,
      .environment "app"] true = .ok (serviceStack false ["app", "db", "--host", "a"]) := rfl
  have plain : (serviceStack false ["app", "db", "--host", "a"]).model.IsPlain := by
    have nodes : ∀ node ∈ Node.below 0 (service false),
        IsKey node.name ∧ node.decoder.reader = none ∧ node.default = none := by decide
    intro node member
    obtain ⟨key, declared, none_given⟩ := nodes node member
    exact Node.isPlain_of_kind key declared fun value given => by
      rw [none_given] at given
      cases given
  have evaluated : (((serviceStack false ["app", "db", "--host", "a"]).read
      serviceSurroundings).toOption.map Resolution.origins) =
        some [("db.host", ⟨"cli", 0⟩)] := by
    decide +kernel
  cases done : (serviceStack false ["app", "db", "--host", "a"]).read serviceSurroundings with
  | error fault =>
    rw [done] at evaluated
    cases evaluated
  | ok resolution =>
    rw [done] at evaluated
    have given : ∀ source ∈ (serviceStack false ["app", "db", "--host", "a"]).sources,
        source.IsPlain := by
      simp [serviceStack, Source.IsPlain]
    obtain ⟨_, _, _, recorded, _⟩ := origins_of_read made plain given done
    exact ⟨resolution, rfl, Option.some.inj evaluated, recorded⟩

/-- Not every path with an origin leads to a leaf. Two invocations on the command line make a list,
which is in the way of the host in the environment. -/
theorem service_hides_host : ∃ resolution,
    ofSchema (service true) [.commandLine ["app", "db", "--host", "a", "db", "--host", "b"] true,
      .environment "app"] true =
        .ok (serviceStack true ["app", "db", "--host", "a", "db", "--host", "b"]) ∧
    (serviceStack true ["app", "db", "--host", "a", "db", "--host", "b"]).read
      serviceSurroundings = .ok resolution ∧
    Keyed.find? "db.host" resolution.origins = some ⟨"env", 1⟩ ∧
    "db.host" ∉ resolution.value.leafPaths := by
  have evaluated : (((serviceStack true ["app", "db", "--host", "a", "db", "--host", "b"]).read
      serviceSurroundings).toOption.map fun resolution =>
        (Keyed.find? "db.host" resolution.origins, resolution.value.leafPaths)) =
      some (some ⟨"env", 1⟩, ["db"]) := by
    decide +kernel
  cases done : (serviceStack true ["app", "db", "--host", "a", "db", "--host", "b"]).read
      serviceSurroundings with
  | error fault =>
    rw [done] at evaluated
    cases evaluated
  | ok resolution =>
    rw [done] at evaluated
    obtain ⟨recorded, leaves⟩ := Prod.mk.inj (Option.some.inj evaluated)
    refine ⟨resolution, rfl, rfl, recorded, ?_⟩
    rw [leaves]
    decide

end Stack

end CommandGrammar
