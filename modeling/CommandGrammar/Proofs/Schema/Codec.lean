import Mathlib
import CommandGrammar.Proofs.Json.Scalars
import CommandGrammar.Proofs.Keyed
import CommandGrammar.Proofs.Schema.Check
import CommandGrammar.Schema.Document

/-!
# Reading back the document of a schema

The document of a schema leaves out what is absent and shows arities and values without tags. All of
it is told from the shape of the document alone: each value of a default is read back as the same
kind of value, at any depth of lists and maps, and so are each parameter and each command. Only
readers of the caller's own are lost, and a map must have its keys in order.
-/

namespace CommandGrammar

/-- Entries in key order are their own map. -/
theorem Keyed.ofEntries_of_ordered {α : Type} {entries : Keyed String α}
    (ordered : Keyed.Ordered entries) : Keyed.ofEntries entries = entries := by
  refine Keyed.Ordered.ext (Keyed.ordered_ofEntries entries) ordered fun key => ?_
  apply Option.ext
  intro value
  rw [Keyed.find?_ofEntries_iff]
  constructor
  · rintro ⟨before, after, rfl, _⟩
    exact Keyed.find?_of_mem ordered (List.mem_append_right _ List.mem_cons_self)
  · intro found
    obtain ⟨before, after, rfl⟩ := List.append_of_mem (Keyed.mem_of_find? found)
    refine ⟨before, after, rfl, fun later member same => ?_⟩
    have tail := (List.pairwise_append.1 ordered).2.1
    have below := (List.pairwise_cons.1 tail).1 later member
    rw [same] at below
    exact Keyed.compare_self_ne_lt key below

namespace Value

mutual

/-- Every map of a value has its keys in order, at any depth of lists and maps. -/
def IsSorted : Value → Prop
  | .list items => ItemsSorted items
  | .map entries => Keyed.Ordered entries ∧ EntriesSorted entries
  | .bool _ | .integer _ | .float _ | .string _ => True

/-- Every map of some items has its keys in order. -/
def ItemsSorted : List Value → Prop
  | [] => True
  | item :: rest => item.IsSorted ∧ ItemsSorted rest

/-- Every map of the values of some entries has its keys in order. -/
def EntriesSorted : List (String × Value) → Prop
  | [] => True
  | (_, value) :: rest => value.IsSorted ∧ EntriesSorted rest

end

mutual

/-- The document of a value is read as the value. -/
theorem ofJson?_toJson (value : Value) (sorted : value.IsSorted) :
    ofJson? value.toJson = some value := by
  cases value with
  | bool | float | string => rfl
  | integer n =>
    have fits : Int64.minValue.toInt ≤ n.toInt ∧ n.toInt ≤ Int64.maxValue.toInt :=
      ⟨Int64.minValue_le_toInt n, Int64.toInt_le n⟩
    rw [toJson, ofJson?, if_pos fits, Int64.ofInt_toInt]
  | list items =>
    rw [IsSorted] at sorted
    rw [toJson, ofJson?, itemsOfJson?_itemsToJson items sorted, Option.map_some]
  | map entries =>
    rw [IsSorted] at sorted
    rw [toJson, ofJson?, entriesOfJson?_entriesToJson entries sorted.2, Option.map_some,
      Keyed.ofEntries_of_ordered sorted.1]

/-- The documents of items are read as the items. -/
theorem itemsOfJson?_itemsToJson (items : List Value) (sorted : ItemsSorted items) :
    itemsOfJson? (itemsToJson items) = some items := by
  cases items with
  | nil => rfl
  | cons item rest =>
    have head := ofJson?_toJson item sorted.1
    have tail := itemsOfJson?_itemsToJson rest sorted.2
    simp [itemsToJson, itemsOfJson?, head, tail]

/-- The members of entries are read as the entries. -/
theorem entriesOfJson?_entriesToJson (entries : List (String × Value))
    (sorted : EntriesSorted entries) : entriesOfJson? (entriesToJson entries) = some entries := by
  match entries with
  | [] => rfl
  | (key, value) :: rest =>
    have head := ofJson?_toJson value sorted.1
    have tail := entriesOfJson?_entriesToJson rest sorted.2
    simp [entriesToJson, entriesOfJson?, head, tail]

end

end Value

/-- A parameter of which a document keeps everything: it has no reader of the caller's own, and the
maps of its default are in order. -/
structure Param.IsWritable (param : Param) : Prop where
  /-- No reader stands in for the kind. -/
  builtin : param.reader = none
  /-- The maps of the default have their keys in order. -/
  sorted : ∀ value, param.default = some value → value.IsSorted

/-- A command tree of which a document keeps everything. -/
def Command.IsWritable (schema : Command) : Prop :=
  ∀ inner, schema.Contains inner → ∀ param ∈ inner.params, param.IsWritable

namespace Command

/-- A command of a tree is the root, or a command of one of its subcommands. -/
theorem Contains.cases_root {root inner : Command} (inside : root.Contains inner) :
    inner = root ∨ ∃ outer ∈ root.subcommands, outer.Contains inner := by
  induction inside with
  | self => exact .inl rfl
  | subcommand _ member ih =>
    rcases ih with rfl | ⟨outer, first, below⟩
    · exact .inr ⟨_, member, .self⟩
    · exact .inr ⟨outer, first, .subcommand below member⟩

/-- A document keeps everything of a tree if it does of the parameters and of the subcommands. -/
theorem isWritable_iff {schema : Command} :
    schema.IsWritable ↔ (∀ param ∈ schema.params, param.IsWritable) ∧
      ∀ inner ∈ schema.subcommands, inner.IsWritable := by
  constructor
  · intro writable
    exact ⟨writable schema .self, fun inner member deeper inside =>
      writable deeper (.of_mem member inside)⟩
  · rintro ⟨own, below⟩ inner inside
    rcases inside.cases_root with rfl | ⟨outer, member, deeper⟩
    · exact own
    · exact below outer member inner deeper

end Command

namespace Document

/-- Texts are read back. -/
theorem texts_map (list : List String) : texts (.array (list.map .string)) = .ok list := by
  have each : (list.map Json.string).mapM text = Except.ok list := by
    induction list with
    | nil => rfl
    | cons head rest ih =>
      rw [List.map_cons, List.mapM_cons, ih]
      rfl
  exact each

/-- An arity is read back. -/
theorem arity_ofArity (count : Arity) : arity (ofArity count) = .ok count := by
  cases count with
  | exactly count =>
    have below : count.toNat < UInt32.size := count.toNat_lt
    simp [ofArity, arity, below]
  | unbounded => rfl

/-- A kind of value is read back. -/
theorem kind_kindName (named : ValueKind) : kind (.string (kindName named)) = .ok named := by
  cases named <;> rfl

/-- The form of a parameter is read back. -/
theorem form_ofForm (shape : ParamForm) : form (ofForm shape) = .ok shape := by
  cases shape with
  | flag triggers takesValue =>
    have read := texts_map triggers
    have parts : [("triggers", Json.array (triggers.map .string)),
        ("takes_value", .bool takesValue)].foldlM formPart {} =
          .ok ⟨some triggers, some takesValue⟩ := by
      simp only [List.foldlM_cons, List.foldlM_nil, formPart, once, read]
      rfl
    change (do (← [("triggers", Json.array (triggers.map .string)),
      ("takes_value", .bool takesValue)].foldlM formPart {}).form) = _
    rw [parts]
    rfl
  | positional => rfl

/-- The value of a default is read back. -/
theorem nullable_toJson {value : Value} (sorted : value.IsSorted) :
    nullable (fun document => present (Value.ofJson? document)) value.toJson =
      .ok (some value) := by
  have read := value.ofJson?_toJson sorted
  cases value
  all_goals
    rw [Value.toJson] at read ⊢
    simp only [nullable, read]
    rfl

/-- A member for a part that may be absent is read if the part is there. -/
theorem foldlM_memberOf {α β : Type} {read : β → String × Json → Read β} {name : String}
    {write : α → Json} {held : Option α} {parts : β} {after : Option α → β}
    (absent : after none = parts)
    (reads : ∀ x, held = some x → read parts (name, write x) = .ok (after (some x))) :
    (memberOf name write held).foldlM read parts = .ok (after held) := by
  cases held with
  | none =>
    rw [absent]
    rfl
  | some x =>
    rw [memberOf, List.foldlM_cons, reads x rfl]
    rfl

/-- Members are read one part of the list after the other. -/
theorem foldlM_append {β : Type} {read : β → String × Json → Read β}
    {members others : List (String × Json)} {parts middle after : β}
    (first : members.foldlM read parts = .ok middle)
    (second : others.foldlM read middle = .ok after) :
    (members ++ others).foldlM read parts = .ok after := by
  rw [List.foldlM_append, first]
  exact second

/-- A parameter without a reader of the caller's own is read back. -/
theorem param_ofParam {declared : Param} (writable : declared.IsWritable) :
    param (ofParam declared) = .ok declared := by
  obtain ⟨name, shape, count, required, multiple, default, named, choices, reader, description⟩ :=
    declared
  obtain ⟨builtin, sorted⟩ := writable
  obtain rfl : reader = none := builtin
  let begun : ParamParts :=
    { name := some name
      form := some shape
      arity := some count
      required := some required
      multiple := some multiple }
  have first : [("name", .string name), ("kind", ofForm shape), ("arity", ofArity count),
      ("required", .bool required), ("multiple", .bool multiple)].foldlM paramPart {} =
        .ok begun := by
    simp only [List.foldlM_cons, List.foldlM_nil, paramPart, once, form_ofForm, arity_ofArity]
    rfl
  let defaulted (held : Option Value) : ParamParts := { begun with default := held.map some }
  have second : (memberOf "default" Value.toJson default).foldlM paramPart begun =
      .ok (defaulted default) := by
    refine foldlM_memberOf rfl fun value held => ?_
    simp only [paramPart, once, nullable_toJson (sorted value held)]
    rfl
  let typed : ParamParts := { defaulted default with kind := some named }
  have third : [("value_type", Json.string (kindName named))].foldlM paramPart
      (defaulted default) = .ok typed := by
    simp only [List.foldlM_cons, List.foldlM_nil, paramPart, once, kind_kindName]
    rfl
  let chosen : ParamParts :=
    { typed with choices := if choices.isEmpty then none else some choices }
  have fourth : (if choices.isEmpty then [] else
      [("choices", Json.array (choices.map .string))]).foldlM paramPart typed = .ok chosen := by
    by_cases empty : choices.isEmpty = true
    · simp only [chosen, if_pos empty]
      rfl
    · simp only [chosen, if_neg empty, List.foldlM_cons, List.foldlM_nil, paramPart, once,
        texts_map]
      rfl
  let described (held : Option String) : ParamParts := { chosen with description := held.map some }
  have fifth : (memberOf "description" .string description).foldlM paramPart chosen =
      .ok (described description) :=
    foldlM_memberOf rfl fun held _ => rfl
  have whole : (described description).param =
      .ok ⟨name, shape, count, required, multiple, default, named, choices, none, description⟩ := by
    have listed : (if choices.isEmpty then none else some choices).getD [] = choices := by
      cases choices <;> rfl
    simp only [ParamParts.param, described, chosen, typed, defaulted, begun, listed]
    cases default <;> cases description <;> rfl
  have members := foldlM_append (foldlM_append (foldlM_append (foldlM_append first second) third)
    fourth) fifth
  rw [ofParam, param]
  simp only [members]
  exact whole

/-- Parameters are read back. -/
theorem params_map {declared : List Param} (writable : ∀ param ∈ declared, param.IsWritable) :
    params (.array (declared.map ofParam)) = .ok declared := by
  rw [params]
  induction declared with
  | nil => rfl
  | cons first rest ih =>
    obtain ⟨head, tail⟩ := List.forall_mem_cons.1 writable
    rw [List.map_cons, List.mapM_cons, param_ofParam head, ih tail]
    rfl

/-- Command trees are read back if each of them is. -/
theorem commands_ofCommands {declared : List Command}
    (each : ∀ inner ∈ declared, command (ofCommand inner) = .ok inner) :
    commands (.array (ofCommands declared)) = .ok declared := by
  rw [commands]
  induction declared with
  | nil => rfl
  | cons first rest ih =>
    obtain ⟨head, tail⟩ := List.forall_mem_cons.1 each
    rw [ofCommands, commandItems, head, ih tail]
    rfl

/-- A command tree without readers of the caller's own is read back. -/
theorem command_ofCommand {schema : Command} (writable : schema.IsWritable) :
    command (ofCommand schema) = .ok schema := by
  induction schema using Command.induction_below with
  | step schema below =>
    obtain ⟨own, inner⟩ := Command.isWritable_iff.1 writable
    have readParams := params_map own
    have readInner := commands_ofCommands fun command member =>
      below command member (inner command member)
    obtain ⟨name, description, declared, subcommands, required, count, multiple⟩ := schema
    have readArity := arity_ofArity count
    simp only at readParams readInner
    cases description <;>
      simp [ofCommand, command, memberOf, commandParts, commandPart, once, readParams, readInner,
        readArity, text, truth, nullable, present, Json.string?, Json.bool?, CommandParts.command,
        Except.map, bind, Except.bind, pure, Except.pure]

end Document

end CommandGrammar
