import Mathlib
import CommandGrammar.Layer
import CommandGrammar.Proofs.Model.Nodes
import CommandGrammar.Proofs.Resolved
import CommandGrammar.Proofs.Schema.Check
import CommandGrammar.Proofs.Value.Stored

/-!
# Layers with plain values

When the names below the root have no dots in them, and defaults and decoded texts are plain, every
layer reads a plain value: settings are stored under the names on the way to a parameter, and an
invocation has the names of what its command declares.
-/

namespace CommandGrammar

/-- A node whose name a dotted path can have, and whose values are plain. -/
structure Node.IsPlain (node : Node) : Prop where
  /-- Its name. -/
  key : IsKey node.name
  /-- What a text is decoded to. -/
  decoded : ∀ raw value, node.decode raw = .ok value → value.IsPlain
  /-- Its default. -/
  default : ∀ value, node.default = some value → value.IsPlain

/-- The declared kinds of values are no maps. -/
theorem ValueKind.isPlain_of_decode {kind : ValueKind} {raw : String} {value : Value}
    (done : kind.decode raw = .ok value) : value.IsPlain := by
  cases kind with
  | string | path =>
    cases done
    trivial
  | integer | float | bool =>
    rw [decode] at done
    split at done
    · cases done
      trivial
    · cases done

/-- A node that has no reader of the caller's own decodes to plain values. -/
theorem Node.isPlain_of_kind {node : Node} (key : IsKey node.name)
    (declared : node.decoder.reader = none)
    (default : ∀ value, node.default = some value → value.IsPlain) : node.IsPlain := by
  refine ⟨key, fun raw value done => ?_, default⟩
  rw [decode, Decoder.decode, declared] at done
  split at done
  · cases done
  · exact ValueKind.isPlain_of_decode done

/-- All nodes below the root are plain. The root's name is on no path. -/
def Model.IsPlain (model : Model) : Prop := ∀ node ∈ model.others, node.IsPlain

/-- The given value of a layer is plain, if it has one. -/
def Source.IsPlain : Source → Prop
  | .fixed _ value => value.IsPlain
  | .commandLine .. | .bindings .. | .environment _ | .variableFile .. | .tomlFile .. | .defaults =>
    True

namespace Model

variable {schema : Command} {model : Model} {node : Node} {id : NodeId}

/-! ## Paths of parameters -/

/-- The names on the way to a node are such as a dotted path can have. -/
theorem isKey_pathUpTo (made : ofSchema schema = .ok model) (plain : model.IsPlain)
    {fuel : Nat} {path : List String} (keyed : ∀ key ∈ path, IsKey key) :
    ∀ key ∈ model.pathUpTo fuel id path, IsKey key := by
  induction fuel generalizing id path with
  | zero => exact keyed
  | succ fuel ih =>
    rw [pathUpTo]
    split
    · exact keyed
    · next node found =>
      split
      · exact keyed
      · next parent named =>
        have below := mem_others_of_parent made (List.mem_of_getElem? found)
          (Option.isSome_of_eq_some named)
        exact ih (List.forall_mem_cons.2 ⟨(plain node below).key, keyed⟩)

/-- The way up to the root only adds names in front. -/
theorem pathUpTo_ne_nil {fuel : Nat} {path : List String} (filled : path ≠ []) :
    model.pathUpTo fuel id path ≠ [] := by
  induction fuel generalizing id path with
  | zero => exact filled
  | succ fuel ih =>
    rw [pathUpTo]
    split
    · exact filled
    · split
      · exact filled
      · exact ih (List.cons_ne_nil _ _)

/-- A plain node under a path that a dotted path can be. -/
def IsPlainPath (entry : String × Node) : Prop :=
  entry.2.IsPlain ∧ ∀ key ∈ Text.segments entry.1, IsKey key

/-- The paths of the parameters of a plain model are plain: their segments are the names on the way
to the parameters. -/
theorem isPlainPath_fieldPaths (made : ofSchema schema = .ok model) (plain : model.IsPlain) :
    ∀ entry ∈ model.fieldPaths, IsPlainPath entry := by
  refine List.forall_mem_map.2 fun node member => ?_
  obtain ⟨listed, param⟩ := List.mem_filter.1 member
  have below := mem_others_of_isParam made listed param
  obtain ⟨parent, named⟩ := Option.isSome_iff_exists.1 (parent_of_mem_others made below)
  have keyed : ∀ key ∈ model.fieldPath node.id, IsKey key :=
    isKey_pathUpTo made plain (by simp)
  have filled : model.fieldPath node.id ≠ [] := by
    rw [fieldPath, size, nodes, List.length_cons, pathUpTo, node?_id made listed]
    simp only [named]
    exact pathUpTo_ne_nil (List.cons_ne_nil _ _)
  refine ⟨plain node below, ?_⟩
  rw [Text.segments_join filled fun key named => (keyed key named).2]
  exact keyed

end Model

/-! ## Settings -/

/-- What a layer decodes for a plain node is plain. -/
theorem Node.IsPlain.decodeFrom {node : Node} (plain : node.IsPlain) {source key raw : String}
    {value : Value} (decoded : node.decodeFrom source key raw = .ok value) : value.IsPlain :=
  plain.decoded raw value (mapError_eq_ok_iff.1 decoded)

/-- What a variable is decoded to for a plain node is plain. -/
theorem Node.IsPlain.decodeVariable {node : Node} (plain : node.IsPlain)
    {source key raw : String} {value : Value}
    (decoded : node.decodeVariable source key raw = .ok value) : value.IsPlain := by
  rw [Node.decodeVariable] at decoded
  split at decoded
  · obtain ⟨items, _, rfl⟩ := map_eq_ok_iff.1 decoded
    trivial
  · exact plain.decodeFrom decoded

namespace Model

variable {schema : Command} {model : Model} {node : Node} {paths : List (String × Node)}
  {settings : List (String × Value)}

/-- Settings in variables are plain. -/
theorem isPlain_settingsIn {source stem : String} {bindings : Keyed String String}
    (plain : ∀ entry ∈ paths, IsPlainPath entry)
    (done : model.settingsIn source stem bindings paths = .ok settings) :
    ∀ setting ∈ settings, Value.IsPlainSetting setting := by
  induction paths generalizing settings with
  | nil =>
    cases done
    simp
  | cons entry rest ih =>
    obtain ⟨path, node⟩ := entry
    obtain ⟨⟨nodePlain, keyed⟩, later⟩ := List.forall_mem_cons.1 plain
    rw [settingsIn] at done
    cases bound : Keyed.find? (variableName stem (Text.segments path)) bindings with
    | none =>
      simp only [bound] at done
      exact ih later done
    | some raw =>
      simp only [bound] at done
      obtain ⟨value, decoded, done⟩ := bind_eq_ok_iff.1 done
      obtain ⟨others, collected, done⟩ := bind_eq_ok_iff.1 done
      cases done
      exact List.forall_mem_cons.2
        ⟨⟨keyed, nodePlain.decodeVariable decoded⟩, ih later collected⟩

/-- The value of a parameter in a document is plain. -/
theorem isPlain_tomlSetting (plain : node.IsPlain) {path : String} {found : Toml} {value : Value}
    (done : tomlSetting path node found = .ok (some value)) : value.IsPlain := by
  rw [tomlSetting.eq_def] at done
  split at done
  · obtain ⟨items, _, same⟩ := map_eq_ok_iff.1 done
    cases same
    trivial
  · cases done
    trivial
  · split at done
    · cases done
    · obtain ⟨decoded, accepted, same⟩ := map_eq_ok_iff.1 done
      cases same
      split
      · trivial
      · exact plain.decodeFrom accepted

/-- Settings in a document are plain. -/
theorem isPlain_tomlSettings {root : Toml} (plain : ∀ entry ∈ paths, IsPlainPath entry)
    (done : tomlSettings root paths = .ok settings) :
    ∀ setting ∈ settings, Value.IsPlainSetting setting := by
  induction paths generalizing settings with
  | nil =>
    cases done
    simp
  | cons entry rest ih =>
    obtain ⟨path, node⟩ := entry
    obtain ⟨⟨nodePlain, keyed⟩, later⟩ := List.forall_mem_cons.1 plain
    rw [tomlSettings] at done
    cases reached : root.at? (Text.segments path) with
    | none =>
      simp only [reached] at done
      obtain ⟨setting, nothing, done⟩ := bind_eq_ok_iff.1 done
      obtain ⟨others, collected, done⟩ := bind_eq_ok_iff.1 done
      cases nothing
      cases done
      exact ih later collected
    | some found =>
      simp only [reached] at done
      obtain ⟨setting, own, done⟩ := bind_eq_ok_iff.1 done
      obtain ⟨others, collected, done⟩ := bind_eq_ok_iff.1 done
      cases done
      cases setting with
      | none => exact ih later collected
      | some value =>
        exact List.forall_mem_cons.2
          ⟨⟨keyed, isPlain_tomlSetting nodePlain own⟩, ih later collected⟩

/-- The layer of variables is plain. -/
theorem isPlain_readVariables (made : ofSchema schema = .ok model) (plain : model.IsPlain)
    {source stem : String} {bindings : Keyed String String} {value : Value}
    (done : model.readVariables source stem bindings = .ok value) : value.IsPlain := by
  obtain ⟨settings, collected, done⟩ := bind_eq_ok_iff.1 done
  cases done
  exact Value.isPlain_nest (isPlain_settingsIn (isPlainPath_fieldPaths made plain) collected)

/-- The layer of a TOML text is plain. -/
theorem isPlain_readToml (made : ofSchema schema = .ok model) (plain : model.IsPlain)
    {text : String} {value : Value} (done : model.readToml text = .ok value) : value.IsPlain := by
  rw [readToml] at done
  split at done
  · cases done
  · obtain ⟨settings, collected, done⟩ := bind_eq_ok_iff.1 done
    cases done
    exact Value.isPlain_nest (isPlain_tomlSettings (isPlainPath_fieldPaths made plain) collected)

/-- The layer of the declared defaults is plain. -/
theorem isPlain_readDefaults (made : ofSchema schema = .ok model) (plain : model.IsPlain) :
    model.readDefaults.IsPlain := by
  refine Value.isPlain_nest fun setting member => ?_
  obtain ⟨⟨path, node⟩, listed, chosen⟩ := List.mem_filterMap.1 member
  obtain ⟨nodePlain, keyed⟩ := isPlainPath_fieldPaths made plain _ listed
  simp only at chosen
  split at chosen
  · cases chosen
  · obtain ⟨value, declared, rfl⟩ := Option.map_eq_some_iff.1 chosen
    exact ⟨keyed, nodePlain.default value declared⟩

end Model

/-! ## Invocations -/

/-- An invocation is the map of its fields as values, under the same names. -/
theorem Resolved.toValue_eq_map (resolved : Resolved) :
    resolved.toValue = .map (resolved.fields.map fun field => (field.1, field.2.toValue)) := by
  have entries (fields : List (String × Field)) :
      entriesOfFields fields = fields.map fun field => (field.1, field.2.toValue) := by
    induction fields with
    | nil => rfl
    | cons field rest ih => rw [entriesOfFields, ih, List.map_cons]
  obtain ⟨node, name, fields⟩ := resolved
  exact congrArg Value.map (entries fields)

namespace Model

variable {schema : Command} {model : Model} {command : Node} {occurrences : Occurrences}

/-- Every field of some occurrences is plain as a value. -/
def ArePlain (occurrences : Occurrences) : Prop :=
  ∀ occurrence ∈ occurrences, occurrence.2.toValue.IsPlain

/-- The field of a plain declaration is plain, given plain occurrences. -/
theorem isPlain_fieldOf? {node : Node} (plain : node.IsPlain) (each : ArePlain occurrences)
    {defaults : Defaults} {field : Field}
    (found : fieldOf? defaults occurrences node = some field) : field.toValue.IsPlain := by
  rcases Option.or_eq_some_iff.1 found with gathered | ⟨_, absent⟩
  · rw [Node.gather?] at gathered
    split at gathered
    · cases gathered
    · split at gathered
      · have member := List.mem_of_getLast? gathered
        obtain ⟨occurrence, inside, rfl⟩ := List.mem_map.1 member
        exact each occurrence (List.mem_of_mem_filter inside)
      · split at gathered
        · cases gathered
          trivial
        · cases gathered
          trivial
  · rw [Node.absent?] at absent
    split at absent
    · obtain ⟨value, declared, rfl⟩ := Option.map_eq_some_iff.1 absent
      exact plain.default value declared
    · cases absent

/-- An invocation is plain, given plain occurrences. -/
theorem isPlain_invocation (made : ofSchema schema = .ok model) (plain : model.IsPlain)
    {id : NodeId} (named : model.node? id = some command) (each : ArePlain occurrences)
    (defaults : Defaults) : (model.invocation defaults command occurrences).toValue.IsPlain := by
  have ordered := ordered_invocation model defaults command occurrences
  have fields : ∀ field ∈ (model.invocation defaults command occurrences).fields,
      IsKey field.1 ∧ field.2.toValue.IsPlain := by
    intro field member
    obtain ⟨node, declared, same, found⟩ := mem_fields_invocation member
    have own := plain node (mem_others_of_declared made named declared)
    exact ⟨same ▸ own.key, isPlain_fieldOf? own each found⟩
  rw [Resolved.toValue_eq_map]
  exact ⟨List.pairwise_map.2 ordered, entriesPlain_iff.2 (List.forall_mem_map.2 fields)⟩

/-- The field of a parameter's occurrence is plain. -/
theorem isPlain_paramField {node : Node} (plain : node.IsPlain) {children : List Tree}
    {field : Field} (done : paramField node children = .ok field) : field.toValue.IsPlain := by
  rw [paramField] at done
  split at done
  · next value decoded =>
    cases done
    exact plain.decoded _ value decoded
  · cases done

mutual

/-- What a branch stands for is plain. -/
theorem arePlain_occurrence (made : ofSchema schema = .ok model) (plain : model.IsPlain)
    {defaults : Defaults} (tree : Tree) {found : Occurrences}
    (done : model.occurrence defaults tree = .ok found) : ArePlain found := by
  cases tree with
  | leaf text =>
    cases done
    simp [ArePlain]
  | branch rule children =>
    rw [occurrence] at done
    split at done
    · cases done
    · next node named =>
      have decodes (param : node.isParam = true)
          (done : (do return [(rule, ← paramField node children)]) = Except.ok found) :
          ArePlain found := by
        obtain ⟨field, decoded, done⟩ := bind_eq_ok_iff.1 done
        cases done
        have own := plain node (mem_others_of_isParam made (List.mem_of_getElem? named) param)
        exact List.forall_mem_singleton.2 (isPlain_paramField own decoded)
      have invokes (done : (do
          let inner ← model.occurrences defaults children
          return [(rule, .command (model.invocation defaults node inner))]) = Except.ok found) :
          ArePlain found := by
        obtain ⟨inner, below, done⟩ := bind_eq_ok_iff.1 done
        cases done
        have plainBelow := arePlain_occurrences made plain children below
        exact List.forall_mem_singleton.2 (isPlain_invocation made plain named plainBelow defaults)
      split at done
      · cases done
        exact List.forall_mem_singleton.2 trivial
      · next kind => exact decodes (by rw [Node.isParam, kind]) done
      · next kind => exact decodes (by rw [Node.isParam, kind]) done
      · exact invokes done
      · exact invokes done

/-- What branches stand for is plain. -/
theorem arePlain_occurrences (made : ofSchema schema = .ok model) (plain : model.IsPlain)
    {defaults : Defaults} (trees : List Tree) {found : Occurrences}
    (done : model.occurrences defaults trees = .ok found) : ArePlain found := by
  cases trees with
  | nil =>
    cases done
    simp [ArePlain]
  | cons tree rest =>
    rw [Model.occurrences] at done
    obtain ⟨first, own, done⟩ := bind_eq_ok_iff.1 done
    obtain ⟨others, later, done⟩ := bind_eq_ok_iff.1 done
    cases done
    exact List.forall_mem_append.2
      ⟨arePlain_occurrence made plain tree own, arePlain_occurrences made plain rest later⟩

end

/-- The invocation that a parse stands for is plain. -/
theorem isPlain_resolve (made : ofSchema schema = .ok model) (plain : model.IsPlain)
    {defaults : Defaults} {parse : Parse} {resolved : Resolved}
    (done : model.resolve defaults parse = .ok resolved) : resolved.toValue.IsPlain := by
  rw [resolve] at done
  split at done
  · cases done
  · next command named =>
    obtain ⟨inner, below, done⟩ := bind_eq_ok_iff.1 done
    cases done
    exact isPlain_invocation made plain named
      (arePlain_occurrences made plain parse.children below) defaults

/-! ## Layers -/

/-- The layer of a command line is plain. -/
theorem isPlain_readCommandLine (made : ofSchema schema = .ok model) (plain : model.IsPlain)
    {arguments : List String} {validate : Bool} {value : Value}
    (done : model.readCommandLine arguments validate = .ok value) : value.IsPlain := by
  obtain ⟨parse, _, done⟩ := bind_eq_ok_iff.1 done
  have resolved : ((model.resolve .omitted parse).mapError
      (fun fault => LayerFault.engine (.ofResolve fault))).map Resolved.toValue = .ok value := by
    cases validate with
    | false => exact done
    | true =>
      cases checked : model.violation? parse with
      | some violation =>
        simp only [checked, if_true] at done
        cases done
      | none =>
        simp only [checked, if_true] at done
        exact done
  obtain ⟨invocation, accepted, rfl⟩ := map_eq_ok_iff.1 resolved
  exact isPlain_resolve made plain (mapError_eq_ok_iff.1 accepted)

/-- The layer of a file is plain if the reading of it is. -/
theorem isPlain_readFile {entry : Entry} {path : String} {required : Bool}
    {read : Except LayerFault Value} (plain : ∀ value, read = .ok value → value.IsPlain)
    {value : Value} (done : readFile entry path required read = .ok value) : value.IsPlain := by
  rw [readFile] at done
  split at done
  · exact plain value done
  · split at done
    · cases done
    · cases done
      exact Value.isPlain_empty

/-- The layers of a plain model are plain. -/
theorem isPlain_read (made : ofSchema schema = .ok model) (plain : model.IsPlain)
    {surroundings : Surroundings} {source : Source} (given : source.IsPlain) {value : Value}
    (done : model.read surroundings source = .ok value) : value.IsPlain := by
  cases source with
  | commandLine arguments validate => exact isPlain_readCommandLine made plain done
  | bindings label stem bindings => exact isPlain_readVariables made plain done
  | environment stem => exact isPlain_readVariables made plain done
  | variableFile path stem required =>
    refine isPlain_readFile (fun value done => ?_) done
    obtain ⟨text, _, done⟩ := bind_eq_ok_iff.1 done
    cases scanned : Dotenv.read? surroundings.environment text with
    | none =>
      rw [scanned] at done
      cases done
    | some bindings =>
      rw [scanned] at done
      exact isPlain_readVariables made plain done
  | tomlFile path required =>
    refine isPlain_readFile (fun value done => ?_) done
    obtain ⟨text, _, done⟩ := bind_eq_ok_iff.1 done
    exact isPlain_readToml made plain done
  | defaults =>
    cases done
    exact isPlain_readDefaults made plain
  | fixed label value =>
    cases done
    exact given

end Model

end CommandGrammar
