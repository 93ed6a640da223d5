import Mathlib
import CommandGrammar.Proofs.Model.Parameters
import CommandGrammar.Proofs.Resolved.Filled
import CommandGrammar.Proofs.Stages

/-!
# Lists among the fields

The occurrences of a parameter that collects make a list, and the last occurrence of any other one
makes a scalar, since no kind of value is read from a text as a list. A parameter that does not
occur has its default as it was declared, with its texts decoded: it is a list if a list was
declared, and a scalar otherwise, even if the parameter collects.
-/

namespace CommandGrammar

/-- No kind of value is read from a text as a list. -/
theorem ValueKind.list?_decode {kind : ValueKind} {raw : String} {value : Value}
    (decodes : kind.decode raw = .ok value) : value.list? = none := by
  unfold ValueKind.decode at decodes
  split at decodes
  case h_1 | h_2 =>
    cases decodes
    rfl
  all_goals
    split at decodes
    · cases decodes
      rfl
    · cases decodes

namespace Decoder

variable {decoder : Decoder} {value decoded : Value}

/-- Without a reader of the caller's no text is decoded to a list. -/
theorem list?_decode (builtin : decoder.reader = none) {raw : String}
    (decodes : decoder.decode raw = .ok value) : value.list? = none := by
  rw [decode, builtin] at decodes
  by_cases refused : (!decoder.choices.isEmpty && !decoder.choices.contains raw) = true
  · rw [if_pos refused] at decodes
    cases decodes
  · rw [if_neg refused] at decodes
    exact ValueKind.list?_decode decodes

/-- The texts of a default are decoded inside lists, which stay lists, and nothing becomes one. -/
theorem isSome_list?_decodeDefault (builtin : decoder.reader = none)
    (decodes : decoder.decodeDefault value = .ok decoded) :
    decoded.list?.isSome = value.list?.isSome := by
  cases value with
  | string raw =>
    rw [decodeDefault] at decodes
    rw [list?_decode builtin decodes]
    rfl
  | list items =>
    rw [decodeDefault] at decodes
    obtain ⟨_, _, rfl⟩ := map_eq_ok_iff.1 decodes
    rfl
  | bool | integer | float | map =>
    rw [decodeDefault] at decodes
    cases decodes
    rfl

end Decoder

namespace Model

variable {schema : Command} {model : Model} {mode : RequiredParams} {node command : Node}
  {children own : List Tree} {invocation : Resolved} {field : Field}

/-- The node of a parameter is that of one of the tree, whose name it has, and its default is the
decoded one. -/
structure Describes (model : Model) (schema : Command) (path : List String) (param : Param)
    (node : Node) : Prop where
  /-- The tree has the parameter. -/
  listed : (path, param) ∈ schema.parameters
  /-- The names that lead to the parameter lead to the node. -/
  reaches : model.Reaches path node
  /-- The node is that of a parameter. -/
  isParam : node.isParam = true
  /-- Both collect, or neither. -/
  collects : node.collects = param.collects
  /-- They have the same decoder. -/
  decoder : node.decoder = param.decoder
  /-- The declared default is decoded. -/
  default : ∀ value, param.default = some value →
    ∃ decoded, param.decoder.decodeDefault value = .ok decoded ∧ node.default = some decoded
  /-- Without a declared default there is none. -/
  undeclared : param.default = none → node.default = none

/-- A node that describes what the model keeps of a parameter has the decoded default. -/
theorem default_as_param {param : Param} (described : node.param? = some param.recorded) :
    node.default = param.recorded.default := by
  rw [Node.param?] at described
  cases kind : node.kind with
  | command | group =>
    rw [kind] at described
    cases described
  | flag | positional =>
    rw [kind] at described
    exact congrArg Param.default (Option.some.inj described)

/-- The node of a parameter is that of a parameter of the tree. -/
theorem exists_describes (made : ofSchema schema = .ok model)
    (known : model.node? node.id = some node) (param : node.isParam = true) :
    ∃ path param, model.Describes schema path param node := by
  obtain ⟨⟨path, declaration⟩, listed, shows_place, _⟩ :=
    exists_related_at (nodes_show made).flip known
  rcases shows_place.parameter known with ⟨tree, same, command⟩ | ⟨origin, rfl, _, described⟩
  · rw [param] at command
    cases command
  · obtain ⟨collects, decoder⟩ := decodes_as_param described
    have default := default_as_param described
    have reaches := reaches_fieldPath made (List.mem_of_getElem? known)
    rw [shows_place.path] at reaches
    have declared : (path, origin) ∈ schema.parameters :=
      List.mem_filterMap.2 ⟨_, List.mem_of_getElem? listed, rfl⟩
    refine ⟨path, origin, declared, reaches, param, collects, decoder,
      fun value declared => ?_, fun undeclared => ?_⟩
    · obtain ⟨decoded, decodes⟩ := shows_place.decodes origin value rfl declared
      refine ⟨decoded, decodes, ?_⟩
      rw [default, Param.recorded, declared, Option.bind_some, decodes]
      rfl
    · rw [default, Param.recorded, undeclared]
      rfl

/-- What stands for an occurrence of a parameter with a builtin decoder is no list. -/
theorem StandsFor.scalar {defaults : Defaults} (stands : model.StandsFor defaults node own field)
    (param : node.isParam = true) (builtin : node.decoder.reader = none) :
    ∃ value, field = .value value ∧ value.list? = none := by
  cases stands with
  | switch => exact ⟨_, rfl, rfl⟩
  | decoded _ _ decodes => exact ⟨_, rfl, Decoder.list?_decode builtin decodes⟩
  | invocation command => simp [Node.isCommand, param] at command

/-- A parameter with a builtin decoder that occurs is a list exactly if it collects. -/
theorem Observed.isSome_list? {branches : List (List Tree)}
    (observed : model.Observed .filled node branches field) (param : node.isParam = true)
    (builtin : node.decoder.reader = none) :
    ∃ value, field = .value value ∧ value.list?.isSome = node.collects := by
  cases collects : node.collects with
  | false =>
    obtain ⟨_, _, stands⟩ := observed.last collects
    obtain ⟨value, rfl, scalar⟩ := stands.scalar param builtin
    exact ⟨value, rfl, by rw [scalar]; rfl⟩
  | true =>
    obtain ⟨_, _, gathers⟩ := observed
    cases gathers with
    | last alone =>
      rw [collects] at alone
      cases alone
    | values => exact ⟨_, rfl, rfl⟩
    | invocations command => simp [Node.isCommand, param] at command

/-- A parameter that does not occur has its default, which is a list exactly if a list was
declared. -/
theorem Describes.absent {path : List String} {param : Param}
    (describes : model.Describes schema path param node) (builtin : param.reader = none)
    (absent : node.absent? .filled = some field) :
    ∃ value, field = .value value ∧ (value.list?.isSome = true ↔
      ∃ declared, param.default = some declared ∧ declared.list?.isSome = true) := by
  have filled : ¬ node.required = true ∧ node.default.map Field.value = some field := by
    unfold Node.absent? at absent
    split at absent
    · next optional => exact ⟨by simpa using optional.1, absent⟩
    · cases absent
  obtain ⟨value, default, rfl⟩ := Option.map_eq_some_iff.1 filled.2
  refine ⟨value, rfl, ?_⟩
  cases declared : param.default with
  | none =>
    rw [describes.undeclared declared] at default
    cases default
  | some own =>
    obtain ⟨decoded, decodes, same⟩ := describes.default own declared
    rw [default, Option.some.injEq] at same
    rw [same, Decoder.isSome_list?_decodeDefault (by exact builtin) decodes]
    simp

/-- The root of a parse without violation is resolved to the result. -/
theorem resolves_root (made : ofSchema schema = .ok model) {line : String} {parse : Parse}
    (parsed : (Table.ofGrammar (model.grammar mode)).parse line = .ok parse)
    (valid : model.violation? parse = none) {defaults : Defaults} {resolved : Resolved}
    (resolves : model.resolve defaults parse = .ok resolved)
    (found : model.node? parse.rule = some command) :
    model.Resolves mode defaults command parse.children resolved := by
  obtain ⟨start, admitted⟩ := admits_of_parse made parsed
  have known : model.node? model.root.id = some model.root := node?_id made List.mem_cons_self
  rw [start, known] at found
  cases found
  have isCommand : model.root.isCommand = true := by
    simp [Node.isCommand, (root_of_ofSchema made).2]
  obtain ⟨text, rule, children⟩ := parse
  obtain rfl : rule = model.root.id := start
  exact ⟨known, isCommand, admitted, valid, text, resolves⟩

/-- The field of a parameter in a resolved invocation: it is a list exactly if the parameter
collects and either occurs in the invocation or has a list as its declared default. -/
theorem shaped_of_resolves (made : ofSchema schema = .ok model)
    (builtin : ∀ place ∈ schema.parameters, place.2.reader = none)
    (scalars : ∀ place ∈ schema.parameters, place.2.collects = false →
      ∀ default, place.2.default = some default → default.list? = none)
    (resolved : model.Resolves mode .filled command children invocation)
    (declared : node ∈ model.nodesOf command.declared) (isParam : node.isParam = true)
    (present : invocation.field? node.name = some field) :
    ∃ path param value, (path, param) ∈ schema.parameters ∧ model.Reaches path node ∧
      field = .value value ∧ (value.list?.isSome = true ↔ param.collects = true ∧
        (branchesOf node.id children ≠ [] ∨
          ∃ default, param.default = some default ∧ default.list?.isSome = true)) := by
  have known := (node?_of_declared made declared).1
  obtain ⟨path, param, describes⟩ := exists_describes made known isParam
  have own := builtin _ describes.listed
  obtain ⟨_, resolves⟩ := resolved.resolves
  obtain ⟨occurring, missing⟩ :=
    field?_of_resolve made resolved.known resolved.admitted resolves declared
  by_cases occurs : branchesOf node.id children = []
  · rw [missing occurs] at present
    obtain ⟨value, rfl, list⟩ := describes.absent own present
    refine ⟨path, param, value, describes.listed, describes.reaches, rfl, ?_⟩
    -- A list was declared only if the parameter collects.
    have collects : (∃ default, param.default = some default ∧ default.list?.isSome = true) →
        param.collects = true := by
      rintro ⟨default, same, some_list⟩
      by_contra single
      rw [scalars _ describes.listed (Bool.eq_false_iff.2 single) default same] at some_list
      cases some_list
    rw [list]
    exact ⟨fun some_list => ⟨collects some_list, .inr some_list⟩,
      fun ⟨_, either⟩ => either.resolve_left fun found => found occurs⟩
  · obtain ⟨other, same, observed⟩ := occurring occurs
    rw [present, Option.some.injEq] at same
    subst same
    have reader : node.decoder.reader = none := by
      rw [describes.decoder]
      exact own
    obtain ⟨value, rfl, list⟩ := observed.isSome_list? isParam reader
    refine ⟨path, param, value, describes.listed, describes.reaches, rfl, ?_⟩
    rw [list, describes.collects]
    exact ⟨fun collects => ⟨collects, .inl occurs⟩, And.left⟩

end Model

namespace App

/-- Let an app check its lines and fill in defaults, and let no parameter have a reader of the
caller's or a list as its default without collecting. Then at every invocation that is kept, the
field of a parameter is a list exactly if the parameter collects and either occurs in the invocation
or has a list as its declared default. -/
theorem lists_of_resolveLine {schema : Command} {app : App} (made : ofSchema schema {} = .ok app)
    (builtin : ∀ place ∈ schema.parameters, place.2.reader = none)
    (scalars : ∀ place ∈ schema.parameters, place.2.collects = false →
      ∀ default, place.2.default = some default → default.list? = none)
    {line : String} {resolved : Resolved} (resolves : app.resolveLine line = .ok resolved) :
    ∃ parse, app.parseLine line = .ok parse ∧
      ∀ command children invocation,
        app.model.Keeps parse resolved command children invocation →
        ∀ node ∈ app.model.nodesOf command.declared, node.isParam = true →
          ∀ field, invocation.field? node.name = some field →
            ∃ path param value, (path, param) ∈ schema.parameters ∧ app.model.Reaches path node ∧
              field = .value value ∧ (value.list?.isSome = true ↔ param.collects = true ∧
                (branchesOf node.id children ≠ [] ∨
                  ∃ default, param.default = some default ∧ default.list?.isSome = true)) := by
  obtain ⟨modelled, deferred, options⟩ := ofSchema_eq_ok made
  have checks : app.options.validate = true := by rw [options]
  obtain ⟨parse, parsed, valid⟩ := parse_of_resolveLine checks resolves
  rw [resolveLine_of_valid checks parsed valid, mapError_eq_ok_iff, options] at resolves
  refine ⟨parse, (parseLine_eq_ok_iff checks).2 ⟨parsed, valid⟩,
    fun command children invocation keeps node declared isParam field present => ?_⟩
  rw [deferred] at parsed
  have kept := keeps.resolves modelled fun _ found =>
    Model.resolves_root modelled parsed valid resolves found
  exact Model.shaped_of_resolves modelled builtin scalars kept declared isParam present

/-- A command with a switch that may be given several times. -/
def verbose : Command :=
  { name := "run", params := [{ Param.switch ["-v"] with multiple := true }] }

/-- The app of the command. -/
def verboseApp : App :=
  let model : Model := ⟨.ofCommand 0 none verbose, Node.below 0 verbose⟩
  ⟨model, model.grammar .counted, .ofGrammar (model.grammar .counted),
    .ofGrammar (model.grammar .deferred), {}⟩

/-- The node of the switch. -/
def verboseSwitch : Node := .ofParam 1 0 { Param.switch ["-v"] with multiple := true }

/-- The switch has no reader of the caller's, and it collects. -/
theorem verbose_parameters : (∀ place ∈ verbose.parameters, place.2.reader = none) ∧
    ∀ place ∈ verbose.parameters, place.2.collects = false →
      ∀ default, place.2.default = some default → default.list? = none := by
  constructor
  · intro place member
    obtain rfl := List.mem_singleton.1 member
    rfl
  · intro place member
    obtain rfl := List.mem_singleton.1 member
    exact nofun

/-- A line is parsed with some occurrences of the switch, and resolved with a value for it. -/
theorem verbose_field (line : String) (occurrences : Nat) (value? : Value → Option Bool)
    (held : Bool) (parses : (verboseApp.parseLine line).toOption.map (fun parse =>
      (parse.rule, (branchesOf verboseSwitch.id parse.children).length)) = some (0, occurrences))
    (resolves : ((verboseApp.resolveLine line).toOption.bind fun resolved =>
      (resolved.field? verboseSwitch.name).bind Field.value?).bind value? = some held) :
    ∃ parse resolved value, verboseApp.parseLine line = .ok parse ∧
      verboseApp.resolveLine line = .ok resolved ∧
      verboseApp.model.Keeps parse resolved verboseApp.model.root parse.children resolved ∧
      (branchesOf verboseSwitch.id parse.children).length = occurrences ∧
      resolved.field? verboseSwitch.name = some (.value value) ∧ value? value = some held := by
  cases parsed : verboseApp.parseLine line with
  | error fault =>
    rw [parsed] at parses
    cases parses
  | ok parse =>
    rw [parsed] at parses
    obtain ⟨start, occurs⟩ := Prod.mk.inj (Option.some.inj parses)
    cases done : verboseApp.resolveLine line with
    | error fault =>
      rw [done] at resolves
      cases resolves
    | ok resolved =>
      rw [done] at resolves
      change ((resolved.field? verboseSwitch.name).bind Field.value?).bind value? = some held
        at resolves
      obtain ⟨value, found, holds⟩ := Option.bind_eq_some_iff.1 resolves
      obtain ⟨field, present, own⟩ := Option.bind_eq_some_iff.1 found
      cases field with
      | value =>
        cases own
        have root : verboseApp.model.node? parse.rule = some verboseApp.model.root := start ▸ rfl
        exact ⟨parse, resolved, value, rfl, rfl, .root root, occurs, present, holds⟩
      | command | commands => cases own

/-- A switch that is given, be it once, has a list. -/
theorem verbose_listed : ofSchema verbose {} = .ok verboseApp ∧ ∃ resolved value,
    verboseApp.resolveLine "run -v" = .ok resolved ∧
      resolved.field? verboseSwitch.name = some (.value value) ∧ value.list?.isSome = true := by
  have made : ofSchema verbose {} = .ok verboseApp := rfl
  obtain ⟨builtin, scalars⟩ := verbose_parameters
  obtain ⟨parse, resolved, value, parsed, resolves, keeps, once, present, _⟩ :=
    verbose_field "run -v" 1 (fun _ => some true) true (by decide +kernel) (by decide +kernel)
  obtain ⟨_, again, listed⟩ := lists_of_resolveLine made builtin scalars resolves
  rw [parsed] at again
  cases again
  obtain ⟨_, param, _, member, _, same, list⟩ :=
    listed _ _ _ keeps verboseSwitch (.head _) rfl _ present
  cases same
  have collects : param.collects = true := by
    obtain ⟨_, rfl⟩ := Prod.mk.inj (List.mem_singleton.1 member)
    rfl
  have occurs : branchesOf verboseSwitch.id parse.children ≠ [] := fun none => by
    rw [none] at once
    cases once
  exact ⟨made, resolved, value, resolves, present, list.2 ⟨collects, .inl occurs⟩⟩

/-- A switch that collects and is not given has its default, which is no list. -/
theorem verbose_unlisted : ofSchema verbose {} = .ok verboseApp ∧
    (∀ place ∈ verbose.parameters, place.2.reader = none) ∧
    (∀ place ∈ verbose.parameters, place.2.collects = false →
      ∀ default, place.2.default = some default → default.list? = none) ∧
    ∃ parse resolved value, verboseApp.parseLine "run" = .ok parse ∧
      verboseApp.resolveLine "run" = .ok resolved ∧
      verboseApp.model.Keeps parse resolved verboseApp.model.root parse.children resolved ∧
      verboseSwitch ∈ verboseApp.model.nodesOf verboseApp.model.root.declared ∧
      verboseSwitch.isParam = true ∧
      resolved.field? verboseSwitch.name = some (.value value) ∧
      ¬ (value.list?.isSome = true ↔ verboseSwitch.collects = true) := by
  obtain ⟨parse, resolved, value, parsed, resolves, keeps, _, present, held⟩ :=
    verbose_field "run" 0 Value.bool? false (by decide +kernel) (by decide +kernel)
  have collects : verboseSwitch.collects = true := rfl
  refine ⟨rfl, verbose_parameters.1, verbose_parameters.2, parse, resolved, value, parsed, resolves,
    keeps, .head _, rfl, present, fun both => ?_⟩
  have list := both.2 collects
  cases value with
  | bool => cases list
  | _ => cases held

end App

end CommandGrammar
