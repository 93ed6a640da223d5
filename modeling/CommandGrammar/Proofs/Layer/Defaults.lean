import Mathlib
import CommandGrammar.Proofs.Layer.Plain
import CommandGrammar.Proofs.Layer.Precedence
import CommandGrammar.Proofs.Model.Branches
import CommandGrammar.Proofs.Resolved.Twins
import CommandGrammar.Proofs.Stages
import CommandGrammar.Proofs.Value.Stored

/-!
# Defaults as a layer

An app fills in the defaults of absent parameters invocation by invocation. A stack of the command
line and the defaults merges them in by path. Both give a parameter the same value as long as its
path leads to it: names without dots, and single invocations on the way. The invocations of
a subcommand that collects are a list, which no path leads into; they stay without defaults.
-/

namespace CommandGrammar

namespace Model

variable {schema : Command} {model : Model} {node command : Node} {above keys : List String}
  {full bare : Resolved} {leaf value : Value}

/-! ## Leaves of invocations -/

/-- Where a leaf of an invocation with the defaults filled in comes from, given the path to the
command and the same invocation without them, as a value. -/
inductive Supplies (model : Model) (above : List String) (bare : Value) :
    List String → Value → Prop where
  /-- It occurs. -/
  | occurs {keys : List String} {leaf : Value} (kept : bare.leaf? keys = some leaf) :
      Supplies model above bare keys leaf
  /-- It is part of the default of a parameter, which is absent. -/
  | default {node : Node} {value leaf : Value} {path inside : List String}
      (reaches : model.Reaches (above ++ path) node) (param : node.isParam = true)
      (optional : node.required = false) (declared : node.default = some value)
      (found : value.leaf? inside = some leaf) (room : bare.isFree path = true) :
      Supplies model above bare (path ++ inside) leaf
  /-- It is the list of collected invocations, whose twins are kept. -/
  | invocations {node : Node} {fulls bares : List Resolved} {keys : List String}
      (reaches : model.Reaches (above ++ keys) node) (command : node.isCommand = true)
      (collects : node.collects = true) (each : List.Forall₂ (model.Twins node.id) fulls bares)
      (kept : bare.leaf? keys = some (.list (valuesOfInvocations bares))) :
      Supplies model above bare keys (.list (valuesOfInvocations fulls))

/-- An invocation as a map has its fields under their names. -/
theorem exists_entries (resolved : Resolved) : ∃ entries, resolved.toValue = .map entries ∧
    ∀ name, Keyed.find? name entries = (resolved.field? name).map Field.toValue := by
  refine ⟨_, resolved.toValue_eq_map, fun name => ?_⟩
  rw [Resolved.field?]
  induction resolved.fields with
  | nil => rfl
  | cons field rest ih =>
    rw [List.map_cons, Keyed.find?, Keyed.find?]
    by_cases same : field.1 = name
    · rw [if_pos same, if_pos same, Option.map_some]
    · rw [if_neg same, if_neg same]
      exact ih

/-- An invocation has the leaves of its fields. -/
theorem leaf?_toValue_cons (resolved : Resolved) (name : String) (keys : List String) :
    resolved.toValue.leaf? (name :: keys) =
      (resolved.field? name).bind fun field => field.toValue.leaf? keys := by
  obtain ⟨entries, same, fields⟩ := exists_entries resolved
  rw [same, Value.leaf?_map_cons, fields]
  cases resolved.field? name <;> rfl

/-- An invocation has room where it has no field, and where its field has room. -/
theorem isFree_toValue_cons (resolved : Resolved) (name : String) (keys : List String) :
    resolved.toValue.isFree (name :: keys) =
      (resolved.field? name).elim true fun field => field.toValue.isFree keys := by
  obtain ⟨entries, same, fields⟩ := exists_entries resolved
  rw [same, Value.isFree_map_cons, fields]
  cases resolved.field? name <;> rfl

/-- What supplies a leaf of a subcommand's invocation supplies one of the command's. -/
theorem Supplies.outward {inner : Resolved} {name : String}
    (field : bare.field? name = some (.command inner))
    (supplies : model.Supplies (above ++ [name]) inner.toValue keys leaf) :
    model.Supplies above bare.toValue (name :: keys) leaf := by
  have leaves (keys : List String) :
      bare.toValue.leaf? (name :: keys) = inner.toValue.leaf? keys := by
    rw [leaf?_toValue_cons, field]
    rfl
  cases supplies with
  | occurs kept => exact .occurs (by rw [leaves, kept])
  | default reaches param optional declared found room =>
    rw [List.append_assoc, List.singleton_append] at reaches
    rw [← List.cons_append]
    apply Supplies.default reaches param optional declared found
    rw [isFree_toValue_cons, field]
    exact room
  | invocations reaches command collects each kept =>
    rw [List.append_assoc, List.singleton_append] at reaches
    exact .invocations reaches command collects each (by rw [leaves, kept])

/-- A leaf of an invocation with the defaults filled in occurs, is part of a default, or is a list
of invocations. -/
theorem Twins.supplies (made : ofSchema schema = .ok model) (reaches : model.Reaches above command)
    (twins : model.Twins command.id full bare) (found : full.toValue.leaf? keys = some leaf) :
    model.Supplies above bare.toValue keys leaf := by
  -- Each key that leads into a single invocation moves on to its command and to its twin.
  induction keys generalizing above command full bare with
  | nil =>
    rw [Resolved.toValue_eq_map] at found
    cases found
  | cons name keys ih =>
    rw [leaf?_toValue_cons] at found
    obtain ⟨field, own, inside⟩ := Option.bind_eq_some_iff.1 found
    obtain ⟨node, declared, rfl, either⟩ := twins.field_cases made (reaches.known made) own
    have onward := Reaches.declared reaches declared
    rcases either with ⟨other, bare_own, same⟩ | ⟨absent, value, optional, default, rfl⟩
    · cases same with
      | value value =>
        apply Supplies.occurs
        rw [leaf?_toValue_cons, bare_own]
        exact inside
      | command inner => exact (ih onward inner inside).outward bare_own
      | commands command collects each =>
        cases keys with
        | nil =>
          cases inside
          apply Supplies.invocations onward command collects each
          rw [leaf?_toValue_cons, bare_own]
          rfl
        | cons next more =>
          rw [Field.toValue, Value.leaf?_cons rfl] at inside
          cases inside
    · have param := isParam_of_default made (node?_of_declared made declared).1 default
      apply Supplies.default onward param optional default inside
      rw [isFree_toValue_cons, absent]
      rfl

/-! ## The layer of the defaults -/

/-- No name on the way to a parameter that the defaults supply has a dot in it. -/
def HasPlainDefaults (model : Model) : Prop :=
  ∀ node ∈ model.nodes, node.isParam = true → node.required = false → node.default ≠ none →
    ∀ name ∈ model.fieldPath node.id, '.' ∉ name.toList

/-- The layer of the defaults has the default of each parameter that is not required. -/
theorem at?_readDefaults (made : ofSchema schema = .ok model) (plain : model.HasPlainDefaults)
    (reaches : model.Reaches keys node) (param : node.isParam = true)
    (optional : node.required = false) (declared : node.default = some value) :
    model.readDefaults.at? keys = some value ∧ model.readDefaults.IsOrderedTo keys := by
  have segments (other : Node) (member : other ∈ model.nodes) (param : other.isParam = true)
      (optional : other.required = false) {value : Value} (declared : other.default = some value) :
      Text.segments (Text.join "." (model.fieldPath other.id)) = model.fieldPath other.id := by
    apply Text.segments_join ((reaches_fieldPath made member).ne_nil made param)
    exact plain other member param optional (by simp [declared])
  have member : node ∈ model.nodes := List.mem_of_getElem? (reaches.known made)
  have path := fieldPath_of_reaches made reaches
  apply Value.at?_nest
  · intro setting listed
    obtain ⟨⟨text, other⟩, own, chosen⟩ := List.mem_filterMap.1 listed
    obtain ⟨_, inside, same⟩ := List.mem_map.1 own
    cases same
    obtain ⟨other_member, other_param⟩ := List.mem_filter.1 inside
    simp only at chosen
    split at chosen
    · cases chosen
    · next other_optional =>
      obtain ⟨other_value, other_declared, rfl⟩ := Option.map_eq_some_iff.1 chosen
      have other_reaches := reaches_fieldPath made other_member
      rw [segments other other_member other_param (Bool.eq_false_iff.2 other_optional)
        other_declared]
      by_cases same : other = node
      · subst same
        rw [declared] at other_declared
        exact .inl ⟨path, (Option.some.inj other_declared).symm⟩
      · -- Neither parameter stands below the other, so that their paths are apart.
        right
        constructor
        · intro before
          exact same (other_reaches.eq_of_prefix made other_param reaches before)
        · intro after
          exact same (reaches.eq_of_prefix made param other_reaches after).symm
  · refine ⟨(Text.join "." keys, value), ?_, ?_⟩
    · refine List.mem_filterMap.2 ⟨(Text.join "." keys, node), ?_, ?_⟩
      · refine List.mem_map.2 ⟨node, List.mem_filter.2 ⟨member, param⟩, ?_⟩
        rw [path]
      · simp [optional, declared]
    · rw [← path]
      exact segments node member param optional declared

/-- The settings of a command line with the defaults below it have the leaves of the command line,
and those that the defaults supply. -/
theorem Supplies.leaf?_merge (made : ofSchema schema = .ok model) (plain : model.HasPlainDefaults)
    (supplies : model.Supplies [] bare.toValue keys leaf) :
    (bare.toValue.merge .preferBase model.readDefaults).leaf? keys = some leaf ∨
      ∃ node fulls bares, node ∈ model.nodes ∧ node.isCommand = true ∧ node.collects = true ∧
        keys = model.fieldPath node.id ∧ List.Forall₂ (model.Twins node.id) fulls bares ∧
        leaf = .list (valuesOfInvocations fulls) ∧
        (bare.toValue.merge .preferBase model.readDefaults).leaf? keys =
          some (.list (valuesOfInvocations bares)) := by
  cases supplies with
  | occurs kept => exact .inl (Value.leaf?_merge_of_leaf kept)
  | @default node value _ path inside reaches param optional declared found room =>
    left
    rw [List.nil_append] at reaches
    obtain ⟨supplied, ordered⟩ := at?_readDefaults made plain reaches param optional declared
    have there := (Value.at?_merge_of_isFree ordered room).trans supplied
    rw [Value.leaf?_append there, found]
  | invocations reaches command collects each kept =>
    right
    rw [List.nil_append] at reaches
    exact ⟨_, _, _, List.mem_of_getElem? (reaches.known made), command, collects,
      (fieldPath_of_reaches made reaches).symm, each, rfl, Value.leaf?_merge_of_leaf kept⟩

/-- A command line that is resolved is read by the layer of the command line. -/
theorem readCommandLine_of_resolve {arguments : List String} {parse : Parse}
    (parsed : (Table.ofGrammar (model.grammar .deferred)).parse (Line.joinArguments arguments) =
      .ok parse)
    (valid : model.violation? parse = none) (resolves : model.resolve .omitted parse = .ok bare) :
    model.readCommandLine arguments true = .ok bare.toValue := by
  refine bind_eq_ok_iff.2 ⟨parse, ?_, ?_⟩
  · exact mapError_eq_ok_iff.2 parsed
  · simp only [if_true, valid]
    exact bind_eq_ok_iff.2 ⟨bare, mapError_eq_ok_iff.2 resolves, rfl⟩

end Model

namespace Stack

/-- What an app resolves arguments to, with the defaults filled in, is found in the settings of a
stack of the command line and the defaults. Every leaf that occurs is kept. If no name on the way to
a supplied default has a dot in it, every other leaf is there too, except that where it is the list
of the invocations of a subcommand that collects, the settings have the list of these
invocations without defaults. -/
theorem layered_has_leaves {schema : Command} {app : App} {arguments : List String}
    {full : Resolved} (made : App.ofSchema schema {} = .ok app)
    (accepted : app.resolveArguments arguments = .ok full) :
    ∃ stack bare, Stack.ofSchema schema [.commandLine arguments true] true = .ok stack ∧
      App.resolveArguments { app with options := { defaults := .omitted } } arguments = .ok bare ∧
      ∀ surroundings, ∃ resolution, stack.read surroundings = .ok resolution ∧
        (∀ keys leaf, bare.toValue.leaf? keys = some leaf →
          resolution.value.leaf? keys = some leaf) ∧
        (stack.model.HasPlainDefaults → ∀ keys leaf, full.toValue.leaf? keys = some leaf →
          resolution.value.leaf? keys = some leaf ∨
            ∃ node fulls bares, node ∈ stack.model.nodes ∧ node.isCommand = true ∧
              node.collects = true ∧ keys = stack.model.fieldPath node.id ∧
              List.Forall₂ (stack.model.Twins node.id) fulls bares ∧
              leaf = .list (valuesOfInvocations fulls) ∧
              resolution.value.leaf? keys = some (.list (valuesOfInvocations bares))) := by
  obtain ⟨modelled, table, options⟩ := App.ofSchema_eq_ok made
  have checks : app.options.validate = true := by rw [options]
  obtain ⟨parse, parsed, valid⟩ := App.parse_of_resolveLine checks accepted
  have resolves : app.model.resolve .filled parse = .ok full := by
    have done := App.resolveLine_of_valid checks parsed valid
    rw [options] at done
    exact mapError_eq_ok_iff.1 (done.symm.trans accepted)
  obtain ⟨bare, bare_resolves, twins⟩ := Model.exists_twin resolves
  let quiet : App := { app with options := { defaults := .omitted } }
  have bare_accepted : quiet.resolveArguments arguments = .ok bare := by
    have done : quiet.resolveLine (Line.joinArguments arguments) =
        (app.model.resolve .omitted parse).mapError .ofResolve :=
      App.resolveLine_of_valid rfl parsed valid
    exact done.trans (mapError_eq_ok_iff.2 bare_resolves)
  rw [table] at parsed
  have read := Model.readCommandLine_of_resolve parsed valid bare_resolves
  let stack : Stack := ⟨app.model, [.commandLine arguments true, .defaults]⟩
  have stacked : ofSchema schema [.commandLine arguments true] true = .ok stack :=
    bind_eq_ok_iff.2 ⟨app.model, mapError_eq_ok_iff.2 modelled, rfl⟩
  refine ⟨stack, bare, stacked, bare_accepted, fun surroundings => ?_⟩
  have areReads : AreReads app.model surroundings stack.sources
      [(.commandLine arguments true, bare.toValue), (.defaults, app.model.readDefaults)] := by
    refine ⟨rfl, ?_⟩
    simp [Model.read, read]
  obtain ⟨resolution, done, merged⟩ := readFrom_of_reads areReads 0 ⟨.map [], []⟩
  have settings : resolution.value = bare.toValue.merge .preferBase app.model.readDefaults := by
    have ordered := Model.ordered_of_resolve bare_resolves
    have first : (Value.map []).merge .preferBase bare.toValue = bare.toValue := by
      rw [bare.toValue_eq_map]
      exact Value.empty_merge (List.pairwise_map.2 ordered)
    rw [merged, Value.mergeOver]
    exact congrArg (fun base => Value.merge .preferBase base app.model.readDefaults) first
  refine ⟨resolution, done, ?_, ?_⟩
  · intro keys leaf found
    rw [settings]
    exact Value.leaf?_merge_of_leaf found
  · intro plain keys leaf found
    rw [settings]
    rw [(Model.admits_of_parse modelled parsed).1] at twins
    exact (twins.supplies modelled .root found).leaf?_merge modelled plain

/-! ## Where the two differ -/

/-- A command with a subcommand for a database, which may be repeated, on a port that has a
default. -/
def cluster (repeated : Bool) : Command :=
  { name := "app"
    subcommands := [
      { name := "db", multiple := repeated
        params := [
          .option ["--host"],
          { Param.option ["--port"] with kind := .integer, default := some (.integer 5432) }] }] }

/-- A command with an option whose name has a dot in it, and which has a default. -/
def dotted : Command :=
  { name := "app"
    params := [
      { Param.option ["--mode"] with name := "log.mode", default := some (.string "off") }] }

/-- The app of a schema, if that passes its check. -/
def appOf (schema : Command) : App :=
  let model : Model := ⟨.ofCommand 0 none schema, Node.below 0 schema⟩
  ⟨model, model.grammar .counted, .ofGrammar (model.grammar .counted),
    .ofGrammar (model.grammar .deferred), {}⟩

/-- The stack of a command line and the defaults of a schema. -/
def stackOf (schema : Command) (arguments : List String) : Stack :=
  ⟨(appOf schema).model, [.commandLine arguments true, .defaults]⟩

/-- A single invocation has the default of its port in the settings too. -/
theorem cluster_has_port : ∃ stack resolution,
    ofSchema (cluster false) [.commandLine ["app", "db", "--host", "a"] true] true = .ok stack ∧
      stack.read nowhere = .ok resolution ∧
      resolution.value.leaf? ["db", "port"] = some (.integer 5432) := by
  have made : App.ofSchema (cluster false) {} = .ok (appOf (cluster false)) := rfl
  have evaluated : ((appOf (cluster false)).resolveArguments
      ["app", "db", "--host", "a"]).toOption.map (fun full =>
        (full.toValue.leaf? ["db", "port"]).bind Value.integer?) = some (some 5432) := by
    decide +kernel
  cases accepted : (appOf (cluster false)).resolveArguments ["app", "db", "--host", "a"] with
  | error fault =>
    rw [accepted] at evaluated
    cases evaluated
  | ok full =>
    rw [accepted] at evaluated
    obtain ⟨leaf, found, number⟩ := Option.bind_eq_some_iff.1 (Option.some.inj evaluated)
    have port : leaf = .integer 5432 := by
      cases leaf with
      | integer n => exact congrArg Value.integer (Option.some.inj number)
      | _ => cases number
    obtain ⟨stack, bare, stacked, _, reads⟩ := layered_has_leaves made accepted
    obtain ⟨resolution, done, _, kept⟩ := reads nowhere
    cases stacked
    have plain : (stackOf (cluster false) ["app", "db", "--host", "a"]).model.HasPlainDefaults := by
      have names : ∀ node ∈ (appOf (cluster false)).model.nodes,
          ∀ name ∈ (appOf (cluster false)).model.fieldPath node.id, '.' ∉ name.toList := by
        decide +kernel
      exact fun node member _ _ _ => names node member
    rw [port] at found
    refine ⟨_, resolution, rfl, done, ?_⟩
    rcases kept plain _ _ found with there | ⟨_, _, _, _, _, _, _, _, same, _⟩
    · exact there
    · cases same

/-- The app has a leaf under keys that the settings do not have there. -/
def Diverges (schema : Command) (arguments keys : List String) : Prop :=
  ∃ app full stack resolution leaf, App.ofSchema schema {} = .ok app ∧
    app.resolveArguments arguments = .ok full ∧
    ofSchema schema [.commandLine arguments true] true = .ok stack ∧
    stack.read nowhere = .ok resolution ∧
    full.toValue.leaf? keys = some leaf ∧ resolution.value.leaf? keys ≠ some leaf

/-- The sizes of the maps in the list under keys, if there is a leaf. -/
def sizesAt (keys : List String) (value : Value) : Option (List Nat) :=
  (value.leaf? keys).map fun leaf =>
    (leaf.list?.getD []).map fun item => (item.map?.getD []).length

/-- The app and the settings differ under keys if the sizes of what they have there do. -/
theorem diverges_of_sizes {schema : Command} {arguments keys : List String} {sizes : List Nat}
    {others : Option (List Nat)} (made : App.ofSchema schema {} = .ok (appOf schema))
    (stacked : ofSchema schema [.commandLine arguments true] true = .ok (stackOf schema arguments))
    (full : ((appOf schema).resolveArguments arguments).toOption.map
      (fun full => sizesAt keys full.toValue) = some (some sizes))
    (settings : ((stackOf schema arguments).read nowhere).toOption.map
      (fun resolution => sizesAt keys resolution.value) = some others)
    (differ : others ≠ some sizes) : Diverges schema arguments keys := by
  cases accepted : (appOf schema).resolveArguments arguments with
  | error fault =>
    rw [accepted] at full
    cases full
  | ok resolved =>
    cases read : (stackOf schema arguments).read nowhere with
    | error fault =>
      rw [read] at settings
      cases settings
    | ok resolution =>
      rw [accepted] at full
      rw [read] at settings
      obtain ⟨leaf, found, own⟩ := Option.map_eq_some_iff.1 (Option.some.inj full)
      refine ⟨_, resolved, _, resolution, leaf, made, accepted, stacked, read, found, ?_⟩
      intro same
      have sizes_same : sizesAt keys resolution.value = some sizes := by
        rw [sizesAt, same, Option.map_some, own]
      exact differ ((Option.some.inj settings).symm.trans sizes_same)

/-- Not every leaf that an app fills in is in the settings. A collected invocation stays without its
defaults, and a default under a name with a dot is stored elsewhere. -/
theorem layered_lacks_defaults : Diverges (cluster true) ["app", "db", "--host", "a"] ["db"] ∧
    Diverges dotted ["app"] ["log.mode"] := by
  constructor
  · have full : ((appOf (cluster true)).resolveArguments
        ["app", "db", "--host", "a"]).toOption.map (fun full => sizesAt ["db"] full.toValue) =
          some (some [2]) := by
      decide +kernel
    have settings : ((stackOf (cluster true) ["app", "db", "--host", "a"]).read
        nowhere).toOption.map (fun resolution => sizesAt ["db"] resolution.value) =
          some (some [1]) := by
      decide +kernel
    exact diverges_of_sizes rfl rfl full settings (by decide)
  · have full : ((appOf dotted).resolveArguments ["app"]).toOption.map
        (fun full => sizesAt ["log.mode"] full.toValue) = some (some []) := by
      decide +kernel
    have settings : ((stackOf dotted ["app"]).read nowhere).toOption.map
        (fun resolution => sizesAt ["log.mode"] resolution.value) = some none := by
      decide +kernel
    exact diverges_of_sizes rfl rfl full settings (by decide)

end Stack

end CommandGrammar
