import Mathlib
import CommandGrammar.Proofs.Json.Texts
import CommandGrammar.Proofs.Schema.Codec

/-!
# Documents of schemas with other numbers

The integers of the document of a schema fit 64 bits, and its binary64 numbers are those of the
defaults, so the document can be written as text if these are finite. With each of them changed, the
document is that of the schema with other numbers in its defaults, and of nothing else.
-/

namespace CommandGrammar

namespace Json

variable {change : Float → Option Float}

/-- The scalars of two lists of members. -/
theorem memberScalars_append (first others : List (String × Json)) :
    memberScalars (first ++ others) = memberScalars first ++ memberScalars others := by
  induction first with
  | nil => rfl
  | cons member rest ih => simp [memberScalars, ih]

/-- The members of two lists are changed one list after the other. -/
theorem membersChanged?_append_eq_some_iff {first others changed : List (String × Json)} :
    membersChanged? change (first ++ others) = some changed ↔ ∃ front back,
      membersChanged? change first = some front ∧ membersChanged? change others = some back ∧
        changed = front ++ back := by
  induction first generalizing changed with
  | nil => simp [membersChanged?]
  | cons member rest ih =>
    obtain ⟨name, value⟩ := member
    rw [List.cons_append, membersChanged?_cons_eq_some_iff]
    simp only [membersChanged?_cons_eq_some_iff, ih]
    constructor
    · rintro ⟨head, tail, here, ⟨front, back, before, after, rfl⟩, rfl⟩
      exact ⟨(name, head) :: front, back, ⟨head, front, here, before, rfl⟩, after, rfl⟩
    · rintro ⟨_, back, ⟨head, front, here, before, rfl⟩, after, rfl⟩
      exact ⟨head, front ++ back, here, ⟨front, back, before, after, rfl⟩, rfl⟩

/-- Members without binary64 numbers stay as they are. -/
theorem membersChanged?_of_no_float {members changed : List (String × Json)}
    (none_held : ∀ x, .float x ∉ memberScalars members)
    (result : membersChanged? change members = some changed) : changed = members := by
  have same := (@membersChanged?_eq_self_iff change members).2 fun x held =>
    absurd held (none_held x)
  exact Option.some.inj (result.symm.trans same)

end Json

namespace Value

variable {change : Float → Option Float}

mutual

/-- The integers of the document of a value fit. -/
theorem fits_toJson (value : Value) {n : Int} (held : .integer n ∈ value.toJson.scalars) :
    (Json.integer n).Fits := by
  cases value with
  | bool | float | string => simp [toJson, Json.scalars] at held
  | integer m =>
    simp only [toJson, Json.scalars, List.mem_singleton, Json.integer.injEq] at held
    have least := Int64.le_toInt m
    have most := Int64.toInt_lt m
    simp only [Json.Fits]
    omega
  | list items => exact fits_itemsToJson items held
  | map entries => exact fits_entriesToJson entries held

/-- The integers of the documents of items fit. -/
theorem fits_itemsToJson (items : List Value) {n : Int}
    (held : .integer n ∈ Json.itemScalars (itemsToJson items)) : (Json.integer n).Fits := by
  cases items with
  | nil => simp [itemsToJson, Json.itemScalars] at held
  | cons item rest =>
    rcases List.mem_append.1 held with own | later
    · exact fits_toJson item own
    · exact fits_itemsToJson rest later

/-- The integers of the members of entries fit. -/
theorem fits_entriesToJson (entries : List (String × Value)) {n : Int}
    (held : .integer n ∈ Json.memberScalars (entriesToJson entries)) : (Json.integer n).Fits := by
  match entries with
  | [] => simp [entriesToJson, Json.memberScalars] at held
  | (key, value) :: rest =>
    rcases List.mem_append.1 held with own | later
    · exact fits_toJson value own
    · exact fits_entriesToJson rest later

end

mutual

/-- With its numbers changed the document of a value is that of a value whose maps have the same
keys. -/
theorem exists_of_changed? (value : Value) {document : Json}
    (changed : value.toJson.changed? change = some document) :
    ∃ other : Value, other.toJson = document ∧ (value.IsSorted → other.IsSorted) := by
  cases value with
  | bool | integer | string =>
    cases changed
    exact ⟨_, rfl, id⟩
  | float x =>
    obtain ⟨y, _, rfl⟩ := Option.map_eq_some_iff.1 changed
    exact ⟨.float y, rfl, id⟩
  | list items =>
    obtain ⟨documents, parts, rfl⟩ := Option.map_eq_some_iff.1 changed
    obtain ⟨others, rfl, sorted⟩ := exists_of_itemsChanged? items parts
    exact ⟨.list others, rfl, sorted⟩
  | map entries =>
    obtain ⟨members, parts, rfl⟩ := Option.map_eq_some_iff.1 changed
    obtain ⟨others, rfl, keys, sorted⟩ := exists_of_entriesChanged? entries parts
    refine ⟨.map others, rfl, fun inOrder => ⟨?_, sorted inOrder.2⟩⟩
    have ordered := inOrder.1
    rw [Keyed.Ordered, ← @List.pairwise_map _ _ Prod.fst (compare · · = .lt)] at ordered ⊢
    exact keys ▸ ordered

/-- With their numbers changed the documents of items are those of items. -/
theorem exists_of_itemsChanged? (items : List Value) {documents : List Json}
    (changed : Json.itemsChanged? change (itemsToJson items) = some documents) :
    ∃ others, itemsToJson others = documents ∧ (ItemsSorted items → ItemsSorted others) := by
  cases items with
  | nil =>
    cases changed
    exact ⟨[], rfl, id⟩
  | cons item rest =>
    obtain ⟨first, others, head, tail, rfl⟩ := Json.itemsChanged?_cons_eq_some_iff.1 changed
    obtain ⟨front, rfl, frontSorted⟩ := exists_of_changed? item head
    obtain ⟨back, rfl, backSorted⟩ := exists_of_itemsChanged? rest tail
    exact ⟨front :: back, rfl, And.imp frontSorted backSorted⟩

/-- With their numbers changed the members of entries are those of entries with the same keys. -/
theorem exists_of_entriesChanged? (entries : List (String × Value))
    {members : List (String × Json)}
    (changed : Json.membersChanged? change (entriesToJson entries) = some members) :
    ∃ others : List (String × Value), entriesToJson others = members ∧
      entries.map Prod.fst = others.map Prod.fst ∧
        (EntriesSorted entries → EntriesSorted others) := by
  match entries with
  | [] =>
    cases changed
    exact ⟨[], rfl, rfl, id⟩
  | (key, value) :: rest =>
    obtain ⟨first, others, head, tail, rfl⟩ := Json.membersChanged?_cons_eq_some_iff.1 changed
    obtain ⟨front, rfl, frontSorted⟩ := exists_of_changed? value head
    obtain ⟨back, rfl, keys, backSorted⟩ := exists_of_entriesChanged? rest tail
    refine ⟨(key, front) :: back, rfl, ?_, And.imp frontSorted backSorted⟩
    rw [List.map_cons, List.map_cons, keys]

end

end Value

/-- A scalar stands in the document of a parameter's default. -/
def Param.Holds (param : Param) (scalar : Json) : Prop :=
  ∃ value, param.default = some value ∧ scalar ∈ value.toJson.scalars

/-- A scalar stands in the document of a default somewhere in a command tree. -/
def Command.Holds (schema : Command) (scalar : Json) : Prop :=
  ∃ inner, schema.Contains inner ∧ ∃ param ∈ inner.params, param.Holds scalar

namespace Command

/-- The scalars of the defaults of a tree are those of its parameters and of its subcommands. -/
theorem holds_iff {schema : Command} {scalar : Json} :
    schema.Holds scalar ↔ (∃ param ∈ schema.params, param.Holds scalar) ∨
      ∃ inner ∈ schema.subcommands, inner.Holds scalar := by
  constructor
  · rintro ⟨inner, inside, own⟩
    rcases inside.cases_root with rfl | ⟨outer, member, deeper⟩
    · exact .inl own
    · exact .inr ⟨outer, member, inner, deeper, own⟩
  · rintro (own | ⟨outer, member, inner, deeper, own⟩)
    · exact ⟨schema, .self, own⟩
    · exact ⟨inner, .of_mem member deeper, own⟩

end Command

namespace Document

open Json

/-- A scalar that fits and is no binary64 number. -/
def IsSteady (scalar : Json) : Prop := scalar.Fits ∧ ∀ x, scalar ≠ .float x

variable {change : Float → Option Float}

/-- Texts are steady. -/
theorem isSteady_texts (list : List String) :
    ∀ scalar ∈ (Json.array (list.map .string)).scalars, IsSteady scalar := by
  intro scalar held
  obtain ⟨item, member, inside⟩ := mem_itemScalars_iff.1 held
  obtain ⟨text, _, rfl⟩ := List.mem_map.1 member
  obtain rfl := List.mem_singleton.1 inside
  exact ⟨trivial, nofun⟩

/-- An arity is steady. -/
theorem isSteady_ofArity (count : Arity) : ∀ scalar ∈ (ofArity count).scalars, IsSteady scalar := by
  cases count with
  | exactly count =>
    intro scalar held
    obtain rfl := List.mem_singleton.1 held
    have below := count.toNat_lt
    refine ⟨⟨?_, ?_⟩, nofun⟩
    · omega
    · omega
  | unbounded =>
    intro scalar held
    obtain rfl := List.mem_singleton.1 held
    exact ⟨trivial, nofun⟩

/-- A form is steady. -/
theorem isSteady_ofForm (shape : ParamForm) :
    ∀ scalar ∈ (ofForm shape).scalars, IsSteady scalar := by
  have word (text : String) : IsSteady (.string text) := ⟨trivial, nofun⟩
  have truth (b : Bool) : IsSteady (.bool b) := ⟨trivial, nofun⟩
  cases shape with
  | flag triggers takesValue =>
    have listed : ∀ scalar ∈ itemScalars (triggers.map .string), IsSteady scalar :=
      isSteady_texts triggers
    simpa [ofForm, scalars, memberScalars, or_imp, forall_and, word, truth] using listed
  | positional =>
    simp [ofForm, scalars, memberScalars, word]

/-- The members of a parameter other than its default are steady, and changing the default changes
none of them. -/
theorem exists_members (param : Param) : ∃ before after,
    (∀ scalar ∈ memberScalars before ++ memberScalars after, IsSteady scalar) ∧
      ∀ default, ofParam { param with default } =
        .object (before ++ memberOf "default" Value.toJson default ++ after) := by
  have word (text : String) : IsSteady (.string text) := ⟨trivial, nofun⟩
  have truth (b : Bool) : IsSteady (.bool b) := ⟨trivial, nofun⟩
  have shape := isSteady_ofForm param.form
  have count := isSteady_ofArity param.arity
  have listed := isSteady_texts param.choices
  refine ⟨[("name", .string param.name), ("kind", ofForm param.form),
      ("arity", ofArity param.arity), ("required", .bool param.required),
      ("multiple", .bool param.multiple)], [("value_type", .string (kindName param.kind))] ++
    (if param.choices.isEmpty then [] else [("choices", .array (param.choices.map .string))]) ++
    memberOf "description" .string param.description, ?_, fun default => by simp [ofParam]⟩
  rw [memberScalars_append, memberScalars_append]
  simp only [List.forall_mem_append]
  refine ⟨?_, ⟨?_, ?_⟩, ?_⟩
  · simpa [memberScalars, scalars, or_imp, forall_and, word, truth] using ⟨shape, count⟩
  · simp [memberScalars, scalars, word]
  · split
    · simp [memberScalars]
    · simpa [memberScalars] using listed
  · cases param.description <;> simp [memberOf, memberScalars, scalars, word]

/-- The document of a parameter holds the scalars of its default and others, which are steady. -/
theorem scalars_ofParam (param : Param) {scalar : Json} :
    (scalar ∈ (ofParam param).scalars → IsSteady scalar ∨ param.Holds scalar) ∧
      (param.Holds scalar → scalar ∈ (ofParam param).scalars) := by
  obtain ⟨before, after, steady, written⟩ := exists_members param
  obtain ⟨front, back⟩ := List.forall_mem_append.1 steady
  have own : ofParam param = _ := written param.default
  have default : scalar ∈ memberScalars (memberOf "default" Value.toJson param.default) ↔
      param.Holds scalar := by
    rw [Param.Holds]
    cases param.default <;> simp [memberOf, memberScalars]
  rw [own, scalars, memberScalars_append, memberScalars_append, List.mem_append, List.mem_append,
    default]
  constructor
  · rintro ((first | held) | last)
    · exact .inl (front _ first)
    · exact .inr held
    · exact .inl (back _ last)
  · exact fun held => .inl (.inr held)

/-- With its numbers changed the document of a parameter is that of a parameter. -/
theorem exists_param_of_changed? (param : Param) {document : Json}
    (changed : (ofParam param).changed? change = some document) :
    ∃ other, ofParam other = document ∧ (param.IsWritable → other.IsWritable) := by
  obtain ⟨before, after, steady, written⟩ := exists_members param
  obtain ⟨front, back⟩ := List.forall_mem_append.1 steady
  have own : ofParam param = _ := written param.default
  rw [own] at changed
  obtain ⟨members, parts, rfl⟩ := Option.map_eq_some_iff.1 changed
  obtain ⟨_, last, outer, final, rfl⟩ := membersChanged?_append_eq_some_iff.1 parts
  obtain ⟨first, middle, begun, default, rfl⟩ := membersChanged?_append_eq_some_iff.1 outer
  obtain rfl := membersChanged?_of_no_float (fun x held => (front _ held).2 x rfl) begun
  obtain rfl := membersChanged?_of_no_float (fun x held => (back _ held).2 x rfl) final
  cases held : param.default with
  | none =>
    rw [held] at default
    cases default
    exact ⟨{ param with default := none }, written none, fun writable => ⟨writable.builtin, nofun⟩⟩
  | some value =>
    rw [held, memberOf] at default
    obtain ⟨other, none_left, inside, ended, rfl⟩ := membersChanged?_cons_eq_some_iff.1 default
    cases ended
    obtain ⟨changedValue, rfl, sorted⟩ := Value.exists_of_changed? value inside
    refine ⟨{ param with default := some changedValue }, written _, fun writable => ?_⟩
    refine ⟨writable.builtin, ?_⟩
    rintro _ ⟨⟩
    exact sorted (writable.sorted value held)

/-- With their numbers changed the documents of parameters are those of parameters. -/
theorem exists_params_of_changed? (declared : List Param) {documents : List Json}
    (changed : itemsChanged? change (declared.map ofParam) = some documents) :
    ∃ others : List Param, others.map ofParam = documents ∧
      ((∀ param ∈ declared, param.IsWritable) → ∀ param ∈ others, param.IsWritable) := by
  induction declared generalizing documents with
  | nil =>
    cases changed
    exact ⟨[], rfl, id⟩
  | cons param rest ih =>
    obtain ⟨first, others, head, tail, rfl⟩ := itemsChanged?_cons_eq_some_iff.1 changed
    obtain ⟨front, rfl, frontWritable⟩ := exists_param_of_changed? param head
    obtain ⟨back, rfl, backWritable⟩ := ih tail
    refine ⟨front :: back, rfl, ?_⟩
    rw [List.forall_mem_cons, List.forall_mem_cons]
    exact And.imp frontWritable backWritable

/-- The members of a command around its parameters and subcommands are steady, and changing these
two changes none of them. -/
theorem exists_command_members (schema : Command) : ∃ before after,
    (∀ scalar ∈ memberScalars before ++ memberScalars after, IsSteady scalar) ∧
      ofCommand schema = .object (before ++ ([("params", .array (schema.params.map ofParam)),
        ("subcommands", .array (ofCommands schema.subcommands))] ++ after)) ∧
      ∀ params subcommands, ofCommand { schema with params, subcommands } =
        .object (before ++ ([("params", .array (params.map ofParam)),
          ("subcommands", .array (ofCommands subcommands))] ++ after)) := by
  have word (text : String) : IsSteady (.string text) := ⟨trivial, nofun⟩
  have truth (b : Bool) : IsSteady (.bool b) := ⟨trivial, nofun⟩
  have count := isSteady_ofArity schema.arity
  refine ⟨[("name", .string schema.name)] ++ memberOf "description" .string schema.description,
    [("required", .bool schema.required), ("arity", ofArity schema.arity),
      ("multiple", .bool schema.multiple)], ?_, by cases schema; simp [ofCommand],
    fun params subcommands => by simp [ofCommand]⟩
  rw [memberScalars_append]
  simp only [List.forall_mem_append]
  refine ⟨⟨?_, ?_⟩, ?_⟩
  · simp [memberScalars, scalars, word]
  · cases schema.description <;> simp [memberOf, memberScalars, scalars, word]
  · simpa [memberScalars, scalars, or_imp, forall_and, word, truth] using count

/-- The documents of command trees are those of each of them. -/
theorem ofCommands_eq_map (list : List Command) : ofCommands list = list.map ofCommand := by
  induction list with
  | nil => rfl
  | cons head rest ih => rw [ofCommands, List.map_cons, ih]

/-- A command adds two levels to the documents of its subcommands. -/
theorem nesting_of_mem_subcommands {schema inner : Command} (member : inner ∈ schema.subcommands) :
    (ofCommand inner).nesting + 2 ≤ (ofCommand schema).nesting := by
  obtain ⟨before, after, _, own, _⟩ := exists_command_members schema
  have listed : ofCommand inner ∈ ofCommands schema.subcommands := by
    rw [ofCommands_eq_map]
    exact List.mem_map_of_mem member
  have items := nesting_le_itemsNesting listed
  have members : (Json.array (ofCommands schema.subcommands)).nesting ≤ membersNesting
      (before ++ ([("params", .array (schema.params.map ofParam)),
        ("subcommands", .array (ofCommands schema.subcommands))] ++ after)) := by
    refine @nesting_le_membersNesting _ "subcommands" _ ?_
    simp
  rw [nesting] at members
  rw [own, nesting]
  omega

/-- The document of a command tree holds the scalars of its defaults and others, which are
steady. -/
theorem scalars_ofCommand (schema : Command) {scalar : Json} :
    (scalar ∈ (ofCommand schema).scalars → IsSteady scalar ∨ schema.Holds scalar) ∧
      (schema.Holds scalar → scalar ∈ (ofCommand schema).scalars) := by
  induction schema using Command.induction_below with
  | step schema below =>
    obtain ⟨before, after, steady, own, _⟩ := exists_command_members schema
    obtain ⟨front, back⟩ := List.forall_mem_append.1 steady
    have inner : scalar ∈ (ofCommand schema).scalars ↔ scalar ∈ memberScalars before ∨
        ((∃ param ∈ schema.params, scalar ∈ (ofParam param).scalars) ∨
          ∃ inner ∈ schema.subcommands, scalar ∈ (ofCommand inner).scalars) ∨
        scalar ∈ memberScalars after := by
      simp [own, scalars, memberScalars, memberScalars_append, mem_itemScalars_iff,
        ofCommands_eq_map, or_assoc]
    rw [inner, Command.holds_iff]
    constructor
    · rintro (first | (⟨param, member, held⟩ | ⟨inner, member, held⟩) | last)
      · exact .inl (front _ first)
      · rcases (scalars_ofParam param).1 held with steady | held
        · exact .inl steady
        · exact .inr (.inl ⟨param, member, held⟩)
      · rcases (below inner member).1 held with steady | held
        · exact .inl steady
        · exact .inr (.inr ⟨inner, member, held⟩)
      · exact .inl (back _ last)
    · rintro (⟨param, member, held⟩ | ⟨inner, member, held⟩)
      · exact .inr (.inl (.inl ⟨param, member, (scalars_ofParam param).2 held⟩))
      · exact .inr (.inl (.inr ⟨inner, member, (below inner member).2 held⟩))

/-- The binary64 numbers of the document of a command tree are those of its defaults. -/
theorem float_mem_scalars_iff {schema : Command} {x : Float} :
    .float x ∈ (ofCommand schema).scalars ↔ schema.Holds (.float x) := by
  constructor
  · intro member
    rcases (scalars_ofCommand schema).1 member with steady | held
    · exact absurd rfl (steady.2 x)
    · exact held
  · exact (scalars_ofCommand schema).2

/-- The document of a command tree can be written if the numbers of its defaults are finite. -/
theorem fits_ofCommand {schema : Command}
    (finite : ∀ x, schema.Holds (.float x) → x.isFinite = true) :
    ∀ scalar ∈ (ofCommand schema).scalars, scalar.Fits := by
  intro scalar member
  rcases (scalars_ofCommand schema).1 member with steady | held
  · exact steady.1
  · cases scalar with
    | integer n =>
      obtain ⟨_, _, _, _, value, _, inside⟩ := held
      exact value.fits_toJson inside
    | float x => exact finite x held
    | null | bool | string | array | object => trivial

/-- With their numbers changed the documents of command trees are those of command trees, if that
holds of each of them. -/
theorem exists_commands_of_changed? (declared : List Command) {documents : List Json}
    (each : ∀ inner ∈ declared, ∀ document, (ofCommand inner).changed? change = some document →
      ∃ other, ofCommand other = document ∧ (inner.IsWritable → other.IsWritable))
    (changed : itemsChanged? change (ofCommands declared) = some documents) :
    ∃ others, ofCommands others = documents ∧
      ((∀ inner ∈ declared, inner.IsWritable) → ∀ inner ∈ others, inner.IsWritable) := by
  induction declared generalizing documents with
  | nil =>
    cases changed
    exact ⟨[], rfl, id⟩
  | cons inner rest ih =>
    obtain ⟨own, later⟩ := List.forall_mem_cons.1 each
    obtain ⟨first, others, head, tail, rfl⟩ := itemsChanged?_cons_eq_some_iff.1 changed
    obtain ⟨front, rfl, frontWritable⟩ := own first head
    obtain ⟨back, rfl, backWritable⟩ := ih later tail
    refine ⟨front :: back, rfl, ?_⟩
    rw [List.forall_mem_cons, List.forall_mem_cons]
    exact And.imp frontWritable backWritable

/-- With its numbers changed the document of a command tree is that of a command tree. -/
theorem exists_command_of_changed? (schema : Command) {document : Json}
    (changed : (ofCommand schema).changed? change = some document) :
    ∃ other, ofCommand other = document ∧ (schema.IsWritable → other.IsWritable) := by
  induction schema using Command.induction_below generalizing document with
  | step schema below =>
    obtain ⟨before, after, steady, own, written⟩ := exists_command_members schema
    obtain ⟨front, back⟩ := List.forall_mem_append.1 steady
    rw [own] at changed
    obtain ⟨members, parts, rfl⟩ := Option.map_eq_some_iff.1 changed
    obtain ⟨first, _, begun, inner, rfl⟩ := membersChanged?_append_eq_some_iff.1 parts
    obtain rfl := membersChanged?_of_no_float (fun x held => (front _ held).2 x rfl) begun
    obtain ⟨middle, last, lists, final, rfl⟩ := membersChanged?_append_eq_some_iff.1 inner
    obtain rfl := membersChanged?_of_no_float (fun x held => (back _ held).2 x rfl) final
    obtain ⟨_, _, paramsChanged, more, rfl⟩ := membersChanged?_cons_eq_some_iff.1 lists
    obtain ⟨_, _, commandsChanged, ended, rfl⟩ := membersChanged?_cons_eq_some_iff.1 more
    cases ended
    obtain ⟨_, paramsList, rfl⟩ := Option.map_eq_some_iff.1 paramsChanged
    obtain ⟨_, commandsList, rfl⟩ := Option.map_eq_some_iff.1 commandsChanged
    obtain ⟨params, rfl, paramsWritable⟩ := exists_params_of_changed? schema.params paramsList
    obtain ⟨subcommands, rfl, innerWritable⟩ := exists_commands_of_changed? schema.subcommands
      (fun inner member document => below inner member) commandsList
    refine ⟨{ schema with params, subcommands }, written params subcommands, ?_⟩
    rw [Command.isWritable_iff, Command.isWritable_iff]
    exact And.imp paramsWritable innerWritable

end Document

end CommandGrammar
