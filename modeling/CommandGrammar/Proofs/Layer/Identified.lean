import Mathlib
import CommandGrammar.Proofs.Layer.Origins
import CommandGrammar.Proofs.Model.Unfolding
import CommandGrammar.Proofs.Value.Dotted

/-!
# Fields told apart by their paths

The names that lead to different parameters part at some command, at two of its fields. The dotted
paths of the parameters are therefore different, and none of them opens another one, as long as no
name of a field opens that of another field of the same command. Without that two parameters can
have one path, or one parameter's setting can stand in the way of another one's.
-/

namespace CommandGrammar

namespace Command

/-- The names of the parameters and of the subcommands of a command. -/
def fieldNames (command : Command) : List String :=
  command.params.map Param.name ++ command.subcommands.map Command.name

/-- No name of a field opens that of another field of the same command. -/
def FieldsApart (command : Command) : Prop :=
  ∀ inner, command.Contains inner → ∀ first ∈ inner.fieldNames, ∀ second ∈ inner.fieldNames,
    ¬Text.Opens first second

variable {command inner : Command} {name : String}

/-- The fields of a command that passes its check have names. -/
theorem ne_empty_of_mem_fieldNames (checked : command.check = .ok ())
    (member : name ∈ command.fieldNames) : name ≠ "" := by
  obtain ⟨formed, passes⟩ := check_eq_ok_iff.1 checked
  rcases List.mem_append.1 member with own | below
  · obtain ⟨param, listed, rfl⟩ := List.mem_map.1 own
    obtain ⟨c, inside, _⟩ := (formed.params param listed).named
    intro empty
    rw [empty] at inside
    cases inside
  · obtain ⟨inner, listed, rfl⟩ := List.mem_map.1 below
    exact (check_eq_ok_iff.1 (passes inner listed)).1.named

/-- A command of a tree is the top of it, or one of a subcommand's tree. -/
theorem Contains.top_or_below (inside : command.Contains inner) :
    inner = command ∨ ∃ next ∈ command.subcommands, next.Contains inner := by
  induction inside with
  | self => exact .inl rfl
  | subcommand _ member ih =>
    rcases ih with rfl | ⟨next, listed, below⟩
    · exact .inr ⟨_, member, .self⟩
    · exact .inr ⟨next, listed, .subcommand below member⟩

/-- The fields of a tree are apart if those of the top are, and those of the subcommands' trees. -/
theorem fieldsApart_of (own : ∀ first ∈ command.fieldNames, ∀ second ∈ command.fieldNames,
      ¬Text.Opens first second)
    (below : ∀ next ∈ command.subcommands, next.FieldsApart) : command.FieldsApart := by
  intro inner inside
  rcases inside.top_or_below with rfl | ⟨next, listed, within⟩
  · exact own
  · exact below next listed inner within

end Command

namespace Model

variable {schema : Command} {model : Model} {node other outer : Node}
  {above first second path : List String}

/-! ## Reached commands -/

/-- The nodes of commands that stand one after the other are followed by what is below them. -/
theorem exists_command_of_rootIds {next parent : Nat} {commands : List Command}
    (begins : Node.belowAll next parent commands <+: model.nodes.drop next)
    (member : node ∈ model.nodesOf (Node.rootIds next commands)) :
    ∃ command ∈ commands, ∃ id, node = .ofCommand id (some parent) command ∧
      Node.below id command <+: model.nodes.drop (id + 1) := by
  induction commands generalizing next with
  | nil => cases member
  | cons command rest ih =>
    obtain ⟨found, follows, after⟩ := begins_cons begins
    rw [Node.rootIds, nodesOf, List.filterMap_cons_some found] at member
    rcases List.mem_cons.1 member with rfl | later
    · exact ⟨command, List.mem_cons_self, next, rfl, follows⟩
    · obtain ⟨other, listed, rest⟩ := ih after later
      exact ⟨other, List.mem_cons_of_mem _ listed, rest⟩

/-- A node that declares something is a command. -/
theorem isCommand_of_declares (made : ofSchema schema = .ok model)
    (known : model.node? outer.id = some outer) (member : node ∈ model.nodesOf outer.declared) :
    outer.isCommand = true := by
  cases group : outer.isCommand with
  | true => rfl
  | false =>
    obtain ⟨_, param, parent, _, _, same⟩ := param_of_node? made known group
    rw [same, Node.declared_ofParam] at member
    cases member

/-- A command that is reached is the node of one of the schema's commands. -/
theorem Reaches.contained (made : ofSchema schema = .ok model) (reaches : model.Reaches path node)
    (command : node.isCommand = true) : ∃ (inner : Command) (id : Nat) (parent : Option NodeId),
      schema.Contains inner ∧ node = .ofCommand id parent inner ∧
        Node.below id inner <+: model.nodes.drop (id + 1) := by
  induction reaches with
  | root =>
    obtain ⟨_, same, follows⟩ := root_stands made
    exact ⟨schema, 0, none, .self, same, follows⟩
  | @declared path outer node above member ih =>
    obtain ⟨inner, id, parent, inside, rfl, follows⟩ :=
      ih (isCommand_of_declares made (above.known made) member)
    rw [Node.declared_ofCommand, nodesOf, List.filterMap_append] at member
    rcases List.mem_append.1 member with own | below
    · have params := nodesOf_params follows
      rw [nodesOf] at params
      rw [params] at own
      obtain ⟨place, _, rfl⟩ := List.mem_mapIdx.1 own
      rw [isCommand_ofParam] at command
      cases command
    · obtain ⟨next, listed, number, same, stands⟩ :=
        exists_command_of_rootIds (begins_subcommands follows) below
      exact ⟨next, number, _, .subcommand inside listed, same, stands⟩

/-- What a reached node declares has the names of the fields of one of the schema's commands. -/
theorem Reaches.fields (made : ofSchema schema = .ok model) (reaches : model.Reaches path outer)
    (member : node ∈ model.nodesOf outer.declared) : ∃ inner, schema.Contains inner ∧
      (model.nodesOf outer.declared).map Node.name = inner.fieldNames := by
  have group := isCommand_of_declares made (reaches.known made) member
  obtain ⟨inner, id, parent, inside, rfl, follows⟩ := reaches.contained made group
  exact ⟨inner, inside, names_declared follows⟩

/-- The names that lead to a node lead through the nodes on the way to it. -/
theorem Reaches.exists_above {below : List String} (reaches : model.Reaches (above ++ below) node) :
    ∃ outer, model.Reaches above outer := by
  induction below using List.reverseRecOn generalizing node with
  | nil =>
    rw [List.append_nil] at reaches
    exact ⟨node, reaches⟩
  | append_singleton below name ih =>
    generalize same : above ++ (below ++ [name]) = whole at reaches
    cases reaches with
    | root => simp at same
    | declared shorter =>
      rw [← List.append_assoc] at same
      obtain ⟨rfl, _⟩ := List.append_inj' same rfl
      exact ih shorter

/-- The next name on the way to a node is that of something that the node before it declares. -/
theorem Reaches.next {name : String} {below : List String}
    (reaches : model.Reaches (above ++ name :: below) node) : ∃ outer inner,
      model.Reaches above outer ∧ inner ∈ model.nodesOf outer.declared ∧ inner.name = name := by
  rw [List.append_cons] at reaches
  obtain ⟨inner, through⟩ := reaches.exists_above
  generalize same : above ++ [name] = whole at through
  cases through with
  | root => simp at same
  | declared outer member =>
    obtain ⟨rfl, last⟩ := List.append_inj' same rfl
    exact ⟨_, inner, outer, member, (List.cons.inj last).1.symm⟩

/-! ## Paths with dots -/

/-- The names that lead to two nodes from a node above both, each followed by a dot, do not begin
each other, if the names are apart. -/
theorem not_dotted_prefix (made : ofSchema schema = .ok model) (fields : schema.FieldsApart)
    (one : model.Reaches (above ++ first) node) (two : model.Reaches (above ++ second) other)
    (apart : Apart first second) : ¬Text.dotted first <+: Text.dotted second := by
  -- The names are followed to the command where they part.
  induction first generalizing above second with
  | nil => exact absurd List.nil_prefix apart.before
  | cons name rest ih =>
    cases second with
    | nil => exact absurd List.nil_prefix apart.after
    | cons name' rest' =>
      intro begins
      rw [Text.dotted, Text.dotted, List.flatMap_cons, List.flatMap_cons] at begins
      by_cases same : name = name'
      · subst same
        rw [List.append_cons] at one two
        exact ih one two apart.tail ((List.prefix_append_right_inj _).1 begins)
      · obtain ⟨outer, inner, reaches, member, rfl⟩ := one.next
        obtain ⟨outer', inner', reaches', member', rfl⟩ := two.next
        obtain rfl := reaches.unique made reaches'
        obtain ⟨command, inside, names⟩ := reaches.fields made member
        have own : inner.name ∈ command.fieldNames := names ▸ List.mem_map_of_mem member
        have own' : inner'.name ∈ command.fieldNames := names ▸ List.mem_map_of_mem member'
        have whole := (List.prefix_append _ _).trans begins
        rcases List.prefix_or_prefix_of_prefix whole (List.prefix_append _ _) with leads | leads
        · exact (Text.prefix_dot_iff.1 leads).elim same (fields command inside _ own _ own')
        · exact (Text.prefix_dot_iff.1 leads).elim (same ∘ Eq.symm)
            (fields command inside _ own' _ own)

/-- The dotted paths of the parameters, in pre-order. -/
def paths (model : Model) : List String := model.fieldPaths.map Prod.fst

/-- A dotted path is that of a parameter, which is reached by the names on it. -/
theorem exists_of_mem_paths (made : ofSchema schema = .ok model) {text : String}
    (member : text ∈ model.paths) : ∃ names node, text = Text.join "." names ∧ names ≠ [] ∧
      model.Reaches names node ∧ node.isParam = true := by
  obtain ⟨entry, listed, rfl⟩ := List.mem_map.1 member
  obtain ⟨node, inside, rfl⟩ := List.mem_map.1 listed
  obtain ⟨known, param⟩ := List.mem_filter.1 inside
  have reaches := reaches_fieldPath made known
  exact ⟨_, node, rfl, reaches.ne_nil made param, reaches, param⟩

/-- The dotted paths of two parameters are different, and the first does not open the second. -/
theorem join_apart (made : ofSchema schema = .ok model) (fields : schema.FieldsApart)
    (one : model.Reaches first node) (two : model.Reaches second other)
    (param : node.isParam = true) (param' : other.isParam = true) (differ : node ≠ other) :
    Text.join "." first ≠ Text.join "." second ∧
      ¬Text.Opens (Text.join "." first) (Text.join "." second) := by
  -- Neither parameter stands below the other one.
  have apart : Apart first second := by
    constructor
    · intro before
      exact differ (one.eq_of_prefix made param two before)
    · intro after
      exact differ (two.eq_of_prefix made param' one after).symm
  have from_root : model.Reaches ([] ++ first) node := one
  have never := not_dotted_prefix made fields from_root two apart
  rw [← Text.toList_join_dot (one.ne_nil made param),
    ← Text.toList_join_dot (two.ne_nil made param'), Text.prefix_dot_iff] at never
  exact not_or.1 never

/-- No text opens itself. -/
theorem not_opens_self (text : String) : ¬Text.Opens text text := by
  intro opens
  have longer := opens.length_le
  rw [String.toList_append, List.length_append] at longer
  exact absurd longer (by simp)

/-- No dotted path opens another one. -/
theorem not_opens (made : ofSchema schema = .ok model) (fields : schema.FieldsApart)
    {text text' : String} (member : text ∈ model.paths) (member' : text' ∈ model.paths) :
    ¬Text.Opens text text' := by
  obtain ⟨names, node, rfl, _, one, param⟩ := exists_of_mem_paths made member
  obtain ⟨names', node', rfl, _, two, param'⟩ := exists_of_mem_paths made member'
  by_cases same : node = node'
  · subst same
    rw [← fieldPath_of_reaches made one, ← fieldPath_of_reaches made two]
    exact not_opens_self _
  · exact (join_apart made fields one two param param' same).2

/-- A dotted path is not empty. -/
theorem ne_empty_of_mem_paths (made : ofSchema schema = .ok model) {text : String}
    (member : text ∈ model.paths) : text ≠ "" := by
  obtain ⟨names, node, rfl, some_name, reaches, _⟩ := exists_of_mem_paths made member
  obtain ⟨name, rest, rfl⟩ := List.exists_cons_of_ne_nil some_name
  have from_root : model.Reaches ([] ++ name :: rest) node := reaches
  obtain ⟨outer, inner, above, declared, rfl⟩ := from_root.next
  obtain ⟨command, inside, names⟩ := above.fields made declared
  have checked := inside.check (root_stands made).1
  have filled := Command.ne_empty_of_mem_fieldNames checked
    (names ▸ List.mem_map_of_mem declared : inner.name ∈ command.fieldNames)
  rw [← Value.extendBy_eq_join filled]
  intro empty
  rcases Value.extendBy_cases filled rest with rfl | opens
  · exact filled empty
  · rw [empty] at opens
    exact absurd (List.prefix_nil.1 opens) (by simp [String.toList_append])

/-- No two parameters have the same dotted path. -/
theorem paths_nodup (made : ofSchema schema = .ok model) (fields : schema.FieldsApart) :
    model.paths.Nodup := by
  rw [paths, fieldPaths, List.map_map]
  refine ((nodes_nodup made).filter _).map_on fun node member other member' same => ?_
  obtain ⟨known, param⟩ := List.mem_filter.1 member
  obtain ⟨known', param'⟩ := List.mem_filter.1 member'
  by_contra differ
  exact (join_apart made fields (reaches_fieldPath made known) (reaches_fieldPath made known')
    param param' differ).1 same

/-! ## Settings by path -/

/-- The dotted paths of a model tell its parameters apart, and so do settings under them. -/
structure TellsApart (model : Model) : Prop where
  /-- No two parameters have the same path. -/
  distinct : model.paths.Nodup
  /-- No path, followed by a dot, begins a path. -/
  apart : ∀ first ∈ model.paths, ∀ second ∈ model.paths, ¬Text.Opens first second
  /-- Nested settings under some of the paths have under each path what was last set there. -/
  read : ∀ settings : List (String × Value), (∀ setting ∈ settings, setting.1 ∈ model.paths) →
    ∀ path ∈ model.paths, (Value.nest settings).path? path = settings.reverse.lookup path
  /-- If no path begins with a dot, the settings become the origin of those paths at which a value
  that is no map was set, and which have no origin yet. -/
  origins : (∀ path ∈ model.paths, ¬Text.Opens "" path) →
    ∀ settings : List (String × Value), (∀ setting ∈ settings, setting.1 ∈ model.paths) →
      ∀ path ∈ model.paths, ∀ (origin : Origin) (before : Keyed String Origin),
        Keyed.find? path (Stack.recordOrigins origin (Value.nest settings).leafPaths before) =
          (Keyed.find? path before).or
            (if (settings.reverse.lookup path).any (·.map?.isNone) then some origin else none)

/-- The dotted paths of a schema without fault tell its parameters apart if no command has two
fields, of which the name of one opens that of the other. -/
theorem paths_tell_apart (valid : schema.faults = []) (fields : schema.FieldsApart) :
    ∃ model, ofSchema schema = .ok model ∧ model.TellsApart := by
  obtain ⟨model, made⟩ := exists_model valid
  have apart : ∀ first ∈ model.paths, ∀ second ∈ model.paths, ¬Text.Opens first second :=
    fun first member second member' => not_opens made fields member member'
  have read : ∀ settings : List (String × Value), (∀ setting ∈ settings, setting.1 ∈ model.paths) →
      ∀ path ∈ model.paths, (Value.nest settings).path? path = settings.reverse.lookup path := by
    intro settings known path member
    apply Value.path?_nest
    intro setting listed _
    have own := known setting listed
    exact ⟨apart setting.1 own path member, apart path member setting.1 own⟩
  refine ⟨model, made, paths_nodup made fields, apart, read, ?_⟩
  intro clear settings known path member origin before
  have leaf := Value.mem_leafPaths_nest (ne_empty_of_mem_paths made member) (clear path member)
    (fun setting listed => ⟨ne_empty_of_mem_paths made (known setting listed),
      clear setting.1 (known setting listed)⟩)
    (fun setting listed => apart setting.1 (known setting listed) path member)
  rw [read settings known path member] at leaf
  have set : path ∈ (Value.nest settings).leafPaths ↔
      (settings.reverse.lookup path).any (·.map?.isNone) = true := by
    simpa [Option.any_eq_true] using leaf
  rw [Stack.find?_recordOrigins]
  exact congrArg _ (if_congr set rfl rfl)

/-- A command with a dot in the name of a field, which no other name opens. -/
def depot : Command :=
  { name := "depot"
    params := [{ Param.option ["--log"] with name := "log.level" }, .option ["--port"]]
    subcommands := [{ name := "store", params := [.option ["--port"]] }] }

/-- The three paths of the command tell its parameters apart, and one of them has a dot of its
own. -/
theorem depot_paths : ∃ model, ofSchema depot = .ok model ∧
    model.paths = ["log.level", "port", "store.port"] ∧ model.TellsApart := by
  have fields : depot.FieldsApart := by
    refine Command.fieldsApart_of (by decide +kernel) (List.forall_mem_singleton.2 ?_)
    exact Command.fieldsApart_of (by decide +kernel) nofun
  have valid : depot.faults = [] := by decide +kernel
  obtain ⟨model, made, apart⟩ := paths_tell_apart valid fields
  cases made
  exact ⟨_, rfl, by decide +kernel, apart⟩

/-- A command with two options, of which the name of the first opens that of the second. -/
def logger : Command :=
  { name := "app"
    params := [
      { Param.option ["--log"] with default := some (.string "a") },
      { Param.option ["--mode"] with name := "log.mode", default := some (.string "b") }] }

/-- A command with an option of the same path as that of its subcommand's option. -/
def twin : Command :=
  { name := "app"
    params := [{ Param.option ["--host"] with name := "db.host" }]
    subcommands := [{ name := "db", params := [.option ["--host"]] }] }

/-- The paths of an accepted schema need not be different, and one of them may open another: then
the setting of the first is lost. -/
theorem paths_clash :
    (∃ model, logger.faults = [] ∧ ofSchema logger = .ok model ∧ model.paths = ["log", "log.mode"] ∧
      Text.Opens "log" "log.mode" ∧
      (model.readDefaults.path? "log").bind Value.string? = none) ∧
    ∃ model, twin.faults = [] ∧ ofSchema twin = .ok model ∧
      model.paths = ["db.host", "db.host"] := by
  constructor
  · exact ⟨⟨.ofCommand 0 none logger, Node.below 0 logger⟩, by decide +kernel, rfl,
      by decide +kernel, by decide +kernel, by decide +kernel⟩
  · exact ⟨⟨.ofCommand 0 none twin, Node.below 0 twin⟩, by decide +kernel, rfl, by decide +kernel⟩

end Model

end CommandGrammar
