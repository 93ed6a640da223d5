import Mathlib
import CommandGrammar.Layer.Variable
import CommandGrammar.Proofs.Layer.Identified
import CommandGrammar.Proofs.Model.Parameters
import CommandGrammar.Proofs.Value.Settings

/-!
# What the layer of variables reports

The parameters of a schema are looked up one after the other, in pre-order. The first one whose
variable is set to a text that it cannot decode makes the layer fail. Without such a parameter the
layer has the value of every parameter that is set, under the names that lead to it, and nothing
else but the maps of the commands above these parameters. That no value gets in the way of another
one is due to the names: without dots in them, dotted paths tell the parameters apart.
-/

namespace CommandGrammar

/-! ## Computations over lists -/

section Lists

variable {ε α β : Type} {step : α → Except ε β} {items : List α}

/-- Items that together have results have them one by one. -/
theorem forall₂_of_mapM_eq_ok {results : List β} (computed : items.mapM step = .ok results) :
    List.Forall₂ (fun item result => step item = .ok result) items results := by
  induction items generalizing results with
  | nil =>
    cases computed
    exact .nil
  | cons item rest ih =>
    rw [List.mapM_cons] at computed
    obtain ⟨result, own, later⟩ := bind_eq_ok_iff.1 computed
    obtain ⟨others, tail, done⟩ := bind_eq_ok_iff.1 later
    cases done
    exact .cons own (ih tail)

/-- Several items fail with the fault of the first of them that fails. -/
theorem exists_first_of_mapM_eq_error {fault : ε} (computed : items.mapM step = .error fault) :
    ∃ good item rest, items = good ++ item :: rest ∧
      (∀ other ∈ good, ∃ result, step other = .ok result) ∧ step item = .error fault := by
  induction items with
  | nil => cases computed
  | cons item rest ih =>
    rw [List.mapM_cons] at computed
    rcases bind_eq_error_iff.1 computed with own | ⟨result, own, later⟩
    · exact ⟨[], item, rest, rfl, List.forall_mem_nil _, own⟩
    · rcases bind_eq_error_iff.1 later with tail | ⟨_, _, done⟩
      · obtain ⟨good, other, more, rfl, before, fails⟩ := ih tail
        have decoded := List.forall_mem_cons.2 ⟨⟨result, own⟩, before⟩
        exact ⟨item :: good, other, more, rfl, decoded, fails⟩
      · cases done

end Lists

/-! ## Texts of one parameter -/

namespace Param

/-- The texts that a parameter decodes of the text of its variable: the items between commas if it
collects, else the whole text. -/
def texts (param : Param) (raw : String) : List String :=
  if param.collects then commaItems raw else [raw]

/-- What a parameter makes of the text of its variable. -/
inductive Decodes (param : Param) (raw : String) : Value → Prop where
  /-- A parameter that does not collect decodes the text. -/
  | whole {value : Value} (single : param.collects = false)
      (decoded : param.decoder.decode raw = .ok value) : Decodes param raw value
  /-- A parameter that collects has the list of its decoded items. -/
  | items {values : List Value} (collects : param.collects = true)
      (each : List.Forall₂ (fun item value => param.decoder.decode item = .ok value)
        (commaItems raw) values) : Decodes param raw (.list values)

/-- The text of a variable has the first text in it that the parameter cannot decode. -/
structure FailsAt (param : Param) (raw text : String) (reason : DecodeFault) : Prop where
  /-- All texts before it are decoded. -/
  first : ∃ good rest, param.texts raw = good ++ text :: rest ∧
    ∀ other ∈ good, ∃ value, param.decoder.decode other = .ok value
  /-- It is not. -/
  fails : param.decoder.decode text = .error reason

/-- The text of a variable has a text in it that the parameter cannot decode. -/
def Fails (param : Param) (raw : String) : Prop :=
  ∃ text ∈ param.texts raw, ∃ reason, param.decoder.decode text = .error reason

variable {param : Param} {raw text : String} {reason : DecodeFault} {value : Value}

/-- The first text that cannot be decoded is one that cannot be decoded. -/
theorem FailsAt.some_fails (first : param.FailsAt raw text reason) : param.Fails raw := by
  obtain ⟨good, rest, split, _⟩ := first.first
  refine ⟨text, ?_, reason, first.fails⟩
  rw [split]
  exact List.mem_append_right _ List.mem_cons_self

/-- Where the parameter has a value, there is no text that it cannot decode. -/
theorem Decodes.not_fails (decodes : param.Decodes raw value) : ¬param.Fails raw := by
  rintro ⟨text, member, reason, fails⟩
  rw [texts] at member
  cases decodes with
  | whole single decoded =>
    rw [single, if_neg Bool.false_ne_true] at member
    rw [List.mem_singleton.1 member, decoded] at fails
    cases fails
  | items collects each =>
    rw [collects, if_pos rfl] at member
    obtain ⟨place, inside⟩ := List.mem_iff_getElem?.1 member
    obtain ⟨value, _, decoded⟩ := exists_related_at each inside
    rw [decoded] at fails
    cases fails

end Param

section Nodes

variable {node : Node} {param : Param} {label key raw : String} {value : Value} {fault : LayerFault}

/-- The node of a parameter decodes a variable to what the parameter makes of it. -/
theorem decodes_of_decodeVariable (collects : node.collects = param.collects)
    (decoder : node.decoder = param.decoder)
    (decoded : node.decodeVariable label key raw = .ok value) : param.Decodes raw value := by
  have one (text : String) (value : Value) (own : node.decodeFrom label key text = .ok value) :
      param.decoder.decode text = .ok value := by
    rw [Node.decodeFrom, mapError_eq_ok_iff, Node.decode, decoder] at own
    exact own
  rw [Node.decodeVariable, collects] at decoded
  by_cases several : param.collects = true
  · rw [if_pos several] at decoded
    obtain ⟨values, computed, rfl⟩ := map_eq_ok_iff.1 decoded
    exact .items several ((forall₂_of_mapM_eq_ok computed).imp one)
  · rw [if_neg several] at decoded
    exact .whole (Bool.eq_false_iff.2 several) (one raw value decoded)

/-- Where it fails it names the variable, and the first text that the parameter cannot decode. -/
theorem failsAt_of_decodeVariable (collects : node.collects = param.collects)
    (decoder : node.decoder = param.decoder)
    (failed : node.decodeVariable label key raw = .error fault) :
    ∃ text reason, param.FailsAt raw text reason ∧
      fault = .undecodable ⟨label, key, text, reason⟩ := by
  have one (text : String) (own : node.decodeFrom label key text = .error fault) :
      ∃ reason, param.decoder.decode text = .error reason ∧
        fault = .undecodable ⟨label, key, text, reason⟩ := by
    rw [Node.decodeFrom, Node.decode, decoder] at own
    cases decoded : param.decoder.decode text with
    | ok value =>
      rw [decoded] at own
      cases own
    | error reason =>
      rw [decoded] at own
      cases own
      exact ⟨reason, rfl, rfl⟩
  rw [Node.decodeVariable, collects] at failed
  by_cases several : param.collects = true
  · rw [if_pos several] at failed
    cases computed : (commaItems raw).mapM (node.decodeFrom label key) with
    | ok values =>
      rw [computed] at failed
      cases failed
    | error other =>
      rw [computed] at failed
      cases failed
      obtain ⟨good, text, rest, split, before, fails⟩ := exists_first_of_mapM_eq_error computed
      obtain ⟨reason, undecodable, same⟩ := one text fails
      refine ⟨text, reason, ⟨⟨good, rest, ?_, fun other member => ?_⟩, undecodable⟩, same⟩
      · rw [Param.texts, if_pos several, split]
      · obtain ⟨value, own⟩ := before other member
        rw [Node.decodeFrom, mapError_eq_ok_iff, Node.decode, decoder] at own
        exact ⟨value, own⟩
  · rw [if_neg several] at failed
    obtain ⟨reason, undecodable, same⟩ := one raw failed
    refine ⟨raw, reason, ⟨⟨[], [], ?_, List.forall_mem_nil _⟩, undecodable⟩, same⟩
    rw [Param.texts, if_neg several]
    rfl

end Nodes

/-! ## Names without dots -/

namespace Command

/-- No field of a command of the tree has a dot in its name. -/
def IsDotless (command : Command) : Prop :=
  ∀ inner, command.Contains inner → ∀ name ∈ inner.fieldNames, '.' ∉ name.toList

/-- Names without dots do not open each other. -/
theorem IsDotless.fieldsApart {command : Command} (dotless : command.IsDotless) :
    command.FieldsApart := by
  intro inner inside first _ second member opens
  apply dotless inner inside second member
  apply opens.subset
  rw [String.toList_append]
  exact List.mem_append_right _ (by decide)

end Command

namespace Model

variable {schema : Command} {model : Model} {node : Node} {path : List String}
  {label stem : String} {bindings : Keyed String String} {places : List (List String × Param)}
  {place : List String × Param} {entries : List (String × Node)} {entry : String × Node}
  {settings : List (String × Value)} {setting : String × Value} {raw : String} {fault : LayerFault}

/-- In a tree without dots, the names that lead to a node have none. -/
theorem free_of_reaches (made : ofSchema schema = .ok model) (dotless : schema.IsDotless)
    (reaches : model.Reaches path node) : ∀ name ∈ path, '.' ∉ name.toList := by
  intro name member
  obtain ⟨above, below, rfl⟩ := List.append_of_mem member
  obtain ⟨outer, inner, through, declared, rfl⟩ := reaches.next
  obtain ⟨command, inside, names⟩ := through.fields made declared
  exact dotless command inside _ (names ▸ List.mem_map_of_mem declared)

/-- The segments of a dotted path are then the names that lead to its parameter. -/
theorem Presents.segments (made : ofSchema schema = .ok model) (dotless : schema.IsDotless)
    (presents : model.Presents place entry) : Text.segments entry.1 = place.1 := by
  rw [presents.path]
  exact Text.segments_join (presents.reaches.ne_nil made presents.param)
    (free_of_reaches made dotless presents.reaches)

/-- So are the segments of the path that joins the names. -/
theorem segments_of_parameter (made : ofSchema schema = .ok model) (dotless : schema.IsDotless)
    (declared : place ∈ schema.parameters) : Text.segments (Text.join "." place.1) = place.1 := by
  obtain ⟨entry, presents⟩ := exists_presents made declared
  rw [← presents.path, presents.segments made dotless]

/-! ## Settings -/

/-- The text of the variable for names. -/
def textBound (stem : String) (bindings : Keyed String String) (path : List String) :
    Option String :=
  Keyed.find? (variableName stem path) bindings

/-- Settings of parameters: one for each parameter whose variable is set, with what the parameter
makes of the text. -/
inductive AreSettings (stem : String) (bindings : Keyed String String) :
    List (List String × Param) → List (String × Value) → Prop where
  /-- There is no parameter. -/
  | nil : AreSettings stem bindings [] []
  /-- The variable of the first parameter is not set. -/
  | unset {place : List String × Param} {places : List (List String × Param)}
      {settings : List (String × Value)} (absent : textBound stem bindings place.1 = none)
      (rest : AreSettings stem bindings places settings) :
      AreSettings stem bindings (place :: places) settings
  /-- It is set. -/
  | set {place : List String × Param} {places : List (List String × Param)} {raw : String}
      {value : Value} {settings : List (String × Value)}
      (found : textBound stem bindings place.1 = some raw) (decodes : place.2.Decodes raw value)
      (rest : AreSettings stem bindings places settings) :
      AreSettings stem bindings (place :: places) ((Text.join "." place.1, value) :: settings)

/-- A fault is that of the first parameter, in a list of them, whose variable is set to a text that
the parameter cannot decode. -/
def IsFirstFault (label stem : String) (bindings : Keyed String String)
    (places : List (List String × Param)) (fault : LayerFault) : Prop :=
  ∃ before place after raw text reason, places = before ++ place :: after ∧
    (∀ earlier ∈ before, ∀ raw, textBound stem bindings earlier.1 = some raw →
      ¬earlier.2.Fails raw) ∧
    textBound stem bindings place.1 = some raw ∧ place.2.FailsAt raw text reason ∧
    fault = .undecodable ⟨label, variableName stem place.1, text, reason⟩

/-- A first fault is still the first one after a parameter that has none. -/
theorem IsFirstFault.after (first : IsFirstFault label stem bindings places fault)
    (fine : ∀ raw, textBound stem bindings place.1 = some raw → ¬place.2.Fails raw) :
    IsFirstFault label stem bindings (place :: places) fault := by
  obtain ⟨before, failing, later, raw, text, reason, rfl, good, rest⟩ := first
  exact ⟨place :: before, failing, later, raw, text, reason, rfl,
    List.forall_mem_cons.2 ⟨fine, good⟩, rest⟩

/-- One setting is found for each parameter that is set. -/
theorem areSettings_of_settingsIn (made : ofSchema schema = .ok model) (dotless : schema.IsDotless)
    (each : List.Forall₂ model.Presents places entries)
    (read : model.settingsIn label stem bindings entries = .ok settings) :
    AreSettings stem bindings places settings := by
  -- The induction is on the parameters and the entries that present them, side by side.
  induction each generalizing settings with
  | nil =>
    cases read
    exact .nil
  | @cons place entry places entries presents _ ih =>
    obtain ⟨dotted, node⟩ := entry
    rw [settingsIn, presents.segments made dotless] at read
    cases found : Keyed.find? (variableName stem place.1) bindings with
    | none =>
      rw [found] at read
      exact .unset found (ih read)
    | some raw =>
      rw [found] at read
      obtain ⟨value, own, later⟩ := bind_eq_ok_iff.1 read
      obtain ⟨others, tail, done⟩ := bind_eq_ok_iff.1 later
      have path : dotted = Text.join "." place.1 := presents.path
      cases done
      rw [path]
      exact .set found (decodes_of_decodeVariable presents.collects presents.decoder own) (ih tail)

/-- Otherwise the first parameter that cannot decode its variable is at fault. -/
theorem isFirstFault_of_settingsIn (made : ofSchema schema = .ok model)
    (dotless : schema.IsDotless) (each : List.Forall₂ model.Presents places entries)
    (failed : model.settingsIn label stem bindings entries = .error fault) :
    IsFirstFault label stem bindings places fault := by
  induction each with
  | nil => cases failed
  | @cons place entry places entries presents _ ih =>
    obtain ⟨dotted, node⟩ := entry
    rw [settingsIn, presents.segments made dotless] at failed
    cases found : Keyed.find? (variableName stem place.1) bindings with
    | none =>
      rw [found] at failed
      apply (ih failed).after
      intro raw set
      rw [textBound, found] at set
      cases set
    | some raw =>
      rw [found] at failed
      -- Either this parameter cannot decode the text, or it can, and a later one is at fault.
      rcases bind_eq_error_iff.1 failed with own | ⟨value, own, later⟩
      · obtain ⟨text, reason, fails, same⟩ :=
          failsAt_of_decodeVariable presents.collects presents.decoder own
        exact ⟨[], place, places, raw, text, reason, rfl, List.forall_mem_nil _, found, fails, same⟩
      · rcases bind_eq_error_iff.1 later with tail | ⟨_, _, done⟩
        · apply (ih tail).after
          intro other set
          rw [textBound, found] at set
          cases set
          exact (decodes_of_decodeVariable presents.collects presents.decoder own).not_fails
        · cases done

/-- The paths of settings are among those of the parameters, in their order. -/
theorem AreSettings.sublist (each : AreSettings stem bindings places settings) :
    (settings.map Prod.fst).Sublist (places.map fun place => Text.join "." place.1) := by
  induction each with
  | nil => exact .slnil
  | unset _ _ ih => exact ih.cons _
  | set _ _ _ ih => exact ih.cons_cons _

/-- A parameter that is set has a setting. -/
theorem AreSettings.exists_setting (each : AreSettings stem bindings places settings)
    (member : place ∈ places) (set : textBound stem bindings place.1 = some raw) :
    ∃ value, place.2.Decodes raw value ∧ (Text.join "." place.1, value) ∈ settings := by
  induction each with
  | nil => cases member
  | unset absent _ ih =>
    rcases List.mem_cons.1 member with rfl | later
    · rw [absent] at set
      cases set
    · exact ih later
  | set found decodes _ ih =>
    rcases List.mem_cons.1 member with rfl | later
    · rw [found] at set
      cases set
      exact ⟨_, decodes, List.mem_cons_self⟩
    · obtain ⟨value, own, listed⟩ := ih later
      exact ⟨value, own, List.mem_cons_of_mem _ listed⟩

/-- A setting is that of a parameter that is set. -/
theorem AreSettings.exists_parameter (each : AreSettings stem bindings places settings)
    (member : setting ∈ settings) : ∃ place ∈ places, ∃ raw,
      textBound stem bindings place.1 = some raw ∧ setting.1 = Text.join "." place.1 ∧
        place.2.Decodes raw setting.2 := by
  induction each with
  | nil => cases member
  | unset _ _ ih =>
    obtain ⟨place, listed, rest⟩ := ih member
    exact ⟨place, List.mem_cons_of_mem _ listed, rest⟩
  | set found decodes _ ih =>
    rcases List.mem_cons.1 member with rfl | later
    · exact ⟨_, List.mem_cons_self, _, found, rfl, decodes⟩
    · obtain ⟨place, listed, rest⟩ := ih later
      exact ⟨place, List.mem_cons_of_mem _ listed, rest⟩

/-! ## The layer -/

/-- What the layer of variables holds under keys. -/
inductive Reported (schema : Command) (stem : String) (bindings : Keyed String String) :
    List String → Value → Prop where
  /-- Under the names that lead to a parameter that is set, what its value holds. -/
  | value {place : List String × Param} {raw : String} {value held : Value} {keys : List String}
      (declared : place ∈ schema.parameters) (set : textBound stem bindings place.1 = some raw)
      (decodes : place.2.Decodes raw value) (inside : value.Holds keys held) :
      Reported schema stem bindings (place.1 ++ keys) held
  /-- Under the names that lead to a command above such a parameter, a map. -/
  | above {place : List String × Param} {raw : String} {keys : List String} {tree : Command}
      {entries : List (String × Value)} (declared : place ∈ schema.parameters)
      (set : textBound stem bindings place.1 = some raw) (above : Value.IsAbove keys place.1)
      (command : (keys, .command tree) ∈ schema.listing []) :
      Reported schema stem bindings keys (.map entries)
  /-- At the top, a map. -/
  | top {entries : List (String × Value)} : Reported schema stem bindings [] (.map entries)

/-- An outcome is what the variables say. -/
structure Reports (schema : Command) (label stem : String) (bindings : Keyed String String)
    (outcome : Except LayerFault Value) : Prop where
  /-- It is a fault exactly if the variable of a parameter is set to a text that the parameter
  cannot decode. -/
  fails : (∃ fault, outcome = .error fault) ↔ ∃ place ∈ schema.parameters, ∃ raw,
    textBound stem bindings place.1 = some raw ∧ place.2.Fails raw
  /-- The fault names the variable of the first such parameter, and the first such text. -/
  first : ∀ fault, outcome = .error fault →
    IsFirstFault label stem bindings schema.parameters fault
  /-- A value has what every parameter that is set makes of its text, under the names that lead to
  the parameter. -/
  set : ∀ value, outcome = .ok value → ∀ place ∈ schema.parameters, ∀ raw,
    textBound stem bindings place.1 = some raw →
      ∃ own, place.2.Decodes raw own ∧ value.at? place.1 = some own
  /-- It holds nothing else but the maps of the commands above these parameters. -/
  only : ∀ value, outcome = .ok value → ∀ keys held, value.Holds keys held →
    Reported schema stem bindings keys held

/-- The settings of parameters are apart. -/
theorem areApart_of_areSettings (made : ofSchema schema = .ok model) (dotless : schema.IsDotless)
    (each : AreSettings stem bindings schema.parameters settings) : Value.AreApart settings := by
  have paths : schema.parameters.map (fun place => Text.join "." place.1) = model.paths := by
    rw [paths, ← List.forall₂_eq_eq_eq, List.forall₂_map_left_iff, List.forall₂_map_right_iff]
    exact (fieldPaths_present made).imp fun place entry presents => presents.path.symm
  have known := each.sublist
  rw [paths] at known
  have fields := dotless.fieldsApart
  constructor
  case distinct => exact (paths_nodup made fields).sublist known
  case closed =>
    intro first one second two
    exact not_opens made fields (known.subset (List.mem_map_of_mem one))
      (known.subset (List.mem_map_of_mem two))

/-- The names that lead to a parameter lead through commands. -/
theorem exists_command_of_isAbove (made : ofSchema schema = .ok model)
    (reaches : model.Reaches path node) {keys : List String} (above : Value.IsAbove keys path) :
    ∃ tree, (keys, .command tree) ∈ schema.listing [] := by
  obtain ⟨next, rest, rfl⟩ := above
  obtain ⟨outer, inner, through, declared, _⟩ := reaches.next
  have group := isCommand_of_declares made (through.known made) declared
  exact exists_command_of_reaches made through group

/-- A layer that is read is made of the settings of the parameters. -/
theorem areSettings_of_readVariables (made : ofSchema schema = .ok model)
    (dotless : schema.IsDotless) {value : Value}
    (read : model.readVariables label stem bindings = .ok value) :
    ∃ settings, AreSettings stem bindings schema.parameters settings ∧
      value = .nest settings := by
  obtain ⟨settings, found, done⟩ := bind_eq_ok_iff.1 read
  cases done
  exact ⟨settings, areSettings_of_settingsIn made dotless (fieldPaths_present made) found, rfl⟩

/-- A layer that is not read has the first fault of the parameters. -/
theorem isFirstFault_of_readVariables (made : ofSchema schema = .ok model)
    (dotless : schema.IsDotless) (failed : model.readVariables label stem bindings = .error fault) :
    IsFirstFault label stem bindings schema.parameters fault := by
  rcases bind_eq_error_iff.1 failed with found | ⟨_, _, done⟩
  · exact isFirstFault_of_settingsIn made dotless (fieldPaths_present made) found
  · cases done

/-- The layer fails exactly if a parameter cannot decode its variable. -/
theorem readVariables_eq_error_iff (made : ofSchema schema = .ok model)
    (dotless : schema.IsDotless) :
    (∃ fault, model.readVariables label stem bindings = .error fault) ↔
      ∃ place ∈ schema.parameters, ∃ raw, textBound stem bindings place.1 = some raw ∧
        place.2.Fails raw := by
  constructor
  · rintro ⟨_, failed⟩
    obtain ⟨before, place, after, raw, text, reason, split, _, set, first, _⟩ :=
      isFirstFault_of_readVariables made dotless failed
    refine ⟨place, ?_, raw, set, first.some_fails⟩
    rw [split]
    exact List.mem_append_right _ List.mem_cons_self
  · rintro ⟨place, declared, raw, set, fails⟩
    cases read : model.readVariables label stem bindings with
    | error fault => exact ⟨fault, rfl⟩
    | ok value =>
      obtain ⟨settings, each, _⟩ := areSettings_of_readVariables made dotless read
      obtain ⟨own, decodes, _⟩ := each.exists_setting declared set
      exact absurd fails decodes.not_fails

/-- The nested settings of the parameters have each one under the names of its parameter. -/
theorem AreSettings.at?_nest (made : ofSchema schema = .ok model) (dotless : schema.IsDotless)
    (each : AreSettings stem bindings schema.parameters settings)
    (declared : place ∈ schema.parameters) (set : textBound stem bindings place.1 = some raw) :
    ∃ own, place.2.Decodes raw own ∧ (Value.nest settings).at? place.1 = some own := by
  obtain ⟨own, decodes, listed⟩ := each.exists_setting declared set
  have there := Value.path?_nest_of_apart (areApart_of_areSettings made dotless each) listed
  rw [Value.path?, segments_of_parameter made dotless declared] at there
  exact ⟨own, decodes, there⟩

/-- They hold nothing but the values of the parameters, and the maps of the commands above. -/
theorem AreSettings.reported (made : ofSchema schema = .ok model) (dotless : schema.IsDotless)
    (each : AreSettings stem bindings schema.parameters settings) {keys : List String}
    {held : Value} (holds : (Value.nest settings).Holds keys held) :
    Reported schema stem bindings keys held := by
  rcases holds.of_nest with ⟨setting, listed, rest, rfl, inside⟩ | ⟨mapped, led⟩
  · obtain ⟨place, declared, raw, set, path, decodes⟩ := each.exists_parameter listed
    rw [path, segments_of_parameter made dotless declared]
    exact .value declared set decodes inside
  · obtain ⟨entries, rfl⟩ | plain := held.eq_map_or_leaf
    · rcases led with rfl | ⟨setting, listed, above⟩
      · exact .top
      · obtain ⟨place, declared, raw, set, path, _⟩ := each.exists_parameter listed
        rw [path, segments_of_parameter made dotless declared] at above
        obtain ⟨entry, presents⟩ := exists_presents made declared
        obtain ⟨tree, command⟩ := exists_command_of_isAbove made presents.reaches above
        exact .above declared set above command
    · rw [plain] at mapped
      cases mapped

/-- The layer of variables reports what they say, for any prefix and any variables, if the schema
is without fault and has no dots in names. -/
theorem variables_reported (valid : schema.faults = []) (dotless : schema.IsDotless) :
    ∃ model, ofSchema schema = .ok model ∧ ∀ label stem bindings,
      Reports schema label stem bindings (model.readVariables label stem bindings) := by
  obtain ⟨model, made⟩ := exists_model valid
  refine ⟨model, made, fun label stem bindings => ?_⟩
  constructor
  case fails => exact readVariables_eq_error_iff made dotless
  case first => exact fun _ failed => isFirstFault_of_readVariables made dotless failed
  case set =>
    intro value read place declared raw set
    obtain ⟨settings, each, rfl⟩ := areSettings_of_readVariables made dotless read
    exact each.at?_nest made dotless declared set
  case only =>
    intro value read keys held holds
    obtain ⟨settings, each, rfl⟩ := areSettings_of_readVariables made dotless read
    exact each.reported made dotless holds

/-- A command with a switch, and a subcommand whose option collects numbers. -/
def convoy : Command :=
  { name := "convoy"
    params := [.switch ["-q", "--quiet"]]
    subcommands := [{
      name := "ship"
      params := [{ Param.option ["--deck"] with kind := .integer, multiple := true }] }] }

/-- The numbers between commas are reported as a list, and the first item that is no number as a
fault. -/
theorem convoy_reported : ∃ model, ofSchema convoy = .ok model ∧
    (∀ label stem bindings,
      Reports convoy label stem bindings (model.readVariables label stem bindings)) ∧
    (do
      let layer ← (model.readVariables "env" "convoy" [("CONVOY_SHIP_DECK", "1, 2,")]).toOption
      let numbers ← (← layer.at? ["ship", "deck"]).list?
      numbers.mapM Value.integer?) = some [1, 2] ∧
    (model.readVariables "env" "convoy" [("CONVOY_SHIP_DECK", "1, low, high")]).map (fun _ => ()) =
      .error (.undecodable ⟨"env", "CONVOY_SHIP_DECK", "low", .integer .invalidDigit⟩) := by
  have valid : convoy.faults = [] := by decide +kernel
  have dotless : convoy.IsDotless := by
    intro inner inside
    rcases inside.top_or_below with rfl | ⟨next, listed, within⟩
    · decide +kernel
    · obtain rfl := List.mem_singleton.1 listed
      rcases within.top_or_below with rfl | ⟨_, deeper, _⟩
      · decide +kernel
      · cases deeper
  obtain ⟨model, made, reports⟩ := variables_reported valid dotless
  refine ⟨model, made, reports, ?_, ?_⟩
  · cases made
    decide +kernel
  · cases made
    decide +kernel

end Model

end CommandGrammar
