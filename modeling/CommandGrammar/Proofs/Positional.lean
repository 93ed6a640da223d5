import Mathlib
import CommandGrammar.Proofs.Options.Places
import CommandGrammar.Proofs.Options.Reading
import CommandGrammar.Proofs.Options.Triggers
import CommandGrammar.Proofs.Policy.Commands
import CommandGrammar.Proofs.Resolved
import CommandGrammar.Proofs.Stages

/-!
# Positional arguments

Every positional argument derives any one token, so each token is an item of the first one that
the command declares: the others never get any. A command with one argument that takes
one text resolves it; one with several has a parse for as many texts, but all of them are
occurrences of the first argument, and the check refuses them.
-/

namespace CommandGrammar

/-- A command without subcommands whose parameters are positional arguments of one text each. -/
structure Command.OfArguments (schema : Command) : Prop where
  /-- It has no subcommands. -/
  alone : schema.subcommands = []
  /-- Every parameter is a positional argument. -/
  positional : ∀ param ∈ schema.params, param.form = .positional
  /-- Every parameter is expected once. -/
  once : ∀ param ∈ schema.params, param.arity = .exactly 1 ∧ param.multiple = false
  /-- Every parameter takes any text as it is. -/
  texts : ∀ param ∈ schema.params,
    param.kind = .string ∧ param.choices = [] ∧ param.reader = none
  /-- The number of parameters has 32 bits. -/
  few : schema.params.length < 2 ^ 32

/-- A branch for each of the texts, all of them with one rule. -/
def AreValues (id : NodeId) (branches : List Tree) (texts : List String) : Prop :=
  List.Forall₂ (fun tree text => ∃ place, tree = .branch id [.leaf ⟨.value, text, place⟩])
    branches texts

namespace Command.OfArguments

variable {schema : Command}

/-- An argument is a positional one. -/
theorem kind (arguments : schema.OfArguments) (place : Fin schema.params.length) :
    (schema.optionNode place).kind = .positional := by
  have form := arguments.positional schema.params[place] (List.getElem_mem place.2)
  simp only [optionNode, Node.ofParam, form]

/-- An argument is expected once. -/
theorem expected (arguments : schema.OfArguments) (place : Fin schema.params.length) :
    (schema.optionNode place).arity = .exactly 1 ∧ (schema.optionNode place).multiple = false :=
  arguments.once _ (List.getElem_mem place.2)

/-- The count of an argument is fixed. -/
theorem fixedCount? (arguments : schema.OfArguments) (place : Fin schema.params.length) :
    (schema.optionNode place).fixedCount? = some 1 := by
  obtain ⟨arity, single⟩ := arguments.expected place
  simp [Node.fixedCount?, arity, single]

/-- An argument does not collect. -/
theorem collects (arguments : schema.OfArguments) (place : Fin schema.params.length) :
    (schema.optionNode place).collects = false := by
  obtain ⟨arity, single⟩ := arguments.expected place
  simp [Node.collects, arity, single]

/-- An argument takes any text as it is. -/
theorem decode (arguments : schema.OfArguments) (place : Fin schema.params.length)
    (raw : String) : (schema.optionNode place).decode raw = .ok (.string raw) := by
  have plain : (schema.optionNode place).decoder = ⟨.string, [], none⟩ := by
    obtain ⟨kind, choices, reader⟩ := arguments.texts _ (List.getElem_mem place.2)
    exact congr (congr (congrArg Decoder.mk kind) choices) reader
  rw [Node.decode, plain]
  rfl

/-- An argument allows one occurrence. -/
theorem allows_one (arguments : schema.OfArguments) (place : Fin schema.params.length) :
    (schema.optionNode place).allows 1 = true := by
  simp [Node.allows, arguments.fixedCount? place]

/-- An argument allows no more than one occurrence. -/
theorem not_allows (arguments : schema.OfArguments) (place : Fin schema.params.length)
    {observed : Nat} (several : 2 ≤ observed) :
    (schema.optionNode place).allows observed = false := by
  have differs : observed ≠ 1 := by omega
  have positive : 0 < observed := by omega
  simp [Node.allows, arguments.fixedCount? place, differs, positive]

end Command.OfArguments

/-- The first of several places comes first. -/
theorem finRange_eq_cons {count : Nat} {first : Fin count} (zero : first.val = 0) :
    ∃ others, List.finRange count = first :: others := by
  cases count with
  | zero => exact first.elim0
  | succ count =>
    have same : first = 0 := Fin.ext zero
    rw [same, List.finRange_succ]
    exact ⟨_, rfl⟩

namespace Model

variable {schema : Command} {model : Model} {mode : RequiredParams} {tokens : List String}
  {start stop : Nat} {trees : List Tree}

/-- Among positional arguments every token goes to the first one. -/
theorem areValues_of_chooses (made : ofSchema schema = .ok model) {first : NodeId}
    {others : List NodeId} {least : Nat} {most : Option Nat}
    (positional : ∀ id ∈ first :: others, ∃ node, model.node? id = some node ∧
      node.kind = .positional)
    (chooses : model.Chooses mode tokens (.items (first :: others) least most) start stop trees)
    (inside : stop ≤ tokens.length) : AreValues first trees (tokens.extract start stop) := by
  generalize same : Portion.items (first :: others) least most = portion at chooses
  induction chooses generalizing least most with
  | done nodes most place =>
    have nothing : tokens.extract place place = [] := by simp [List.extract_eq_take_drop]
    rw [nothing]
    exact .nil
  | @item earlier later id _ _ start _ _ _ _ _ passed own rest _ _ ih =>
    injection same with nodes _ _
    obtain ⟨node, found, kind⟩ := positional id (by rw [nodes]; simp)
    obtain ⟨text, token, rfl, rfl⟩ := own.of_positional found kind
    have below := (List.getElem?_eq_some_iff.1 token).1
    -- The first argument derives the token as well, so it cannot have been passed over.
    have own : earlier = [] := by
      cases earlier with
      | nil => rfl
      | cons other _ =>
        obtain ⟨rfl, _⟩ := List.cons.inj nodes
        obtain ⟨another, known, form⟩ := positional first List.mem_cons_self
        refine absurd ?_ (passed first List.mem_cons_self)
        refine (Grammar.spans_rule_iff (production?_readGrammar made mode known)).2 ?_
        rw [readExpr, nodeExpr, form]
        exact Grammar.spans_value_iff.2 ⟨rfl, text, token⟩
    subst own
    obtain ⟨rfl, rfl⟩ := List.cons.inj nodes
    have ordered := (rest.picks made below).le
    have one : tokens.extract start (start + 1) = [text] :=
      (between_singleton_iff.2 ⟨rfl, token⟩).2.2
    rw [← extract_append (Nat.le_succ start) ordered, one]
    exact .cons ⟨start, rfl⟩ (ih inside rfl)
  | _ => cases same

/-- The counts of the arguments are one each. -/
theorem fixedCounts?_arguments (made : ofSchema schema = .ok model)
    (arguments : schema.OfArguments) :
    model.fixedCounts? model.root = some (List.replicate schema.params.length 1) := by
  rw [fixedCounts?_root_iff made arguments.alone, List.map_replicate]
  refine List.eq_replicate_iff.2 ⟨by simp, fun count member => ?_⟩
  obtain ⟨place, _, rfl⟩ := List.mem_map.1 member
  exact arguments.fixedCount? place

/-- A command of arguments may have as many texts as arguments. -/
theorem within_arguments (mode : RequiredParams) (made : ofSchema schema = .ok model)
    (arguments : schema.OfArguments) :
    Within (model.readBounds mode model.root) schema.params.length := by
  have fixed := fixedCounts?_arguments made arguments
  have sum : (List.replicate schema.params.length 1).sum = schema.params.length := by simp
  have small : (List.replicate schema.params.length 1).sum < 2 ^ 32 := by
    rw [sum]
    exact arguments.few
  have least : model.minParams mode model.root ≤ (List.replicate schema.params.length 1).sum :=
    Nat.le_trans (wrappingSum_le _) (sum_filter_le fixed mode.counts)
  refine within_readBounds_iff.2 fun most known => ?_
  rw [maxParams, fixed, Option.map_some, Option.some.injEq, wrappingSum_of_lt small, sum] at known
  rw [sum] at least
  exact ⟨least, known ▸ Nat.le_max_right _ _⟩

/-- As many texts as arguments are accepted. -/
theorem accepts_values (mode : RequiredParams) (made : ofSchema schema = .ok model)
    (arguments : schema.OfArguments) (place : Fin schema.params.length) {values : List String}
    (many : values.length = schema.params.length) :
    (model.readGrammar mode).Accepts (schema.name :: values) := by
  obtain ⟨_, found⟩ := production?_root made arguments.alone mode
  have each : ∀ part ∈ values.map ([·]), ∃ id ∈ model.root.params,
      (model.readGrammar mode).Derives (.rule id) part := by
    intro part member
    obtain ⟨value, _, rfl⟩ := List.mem_map.1 member
    refine ⟨schema.optionId place, ?_, ?_⟩
    · rw [params_root made arguments.alone]
      exact List.mem_map_of_mem (List.mem_finRange _)
    · refine .rule (production?_readGrammar made mode (node?_option made arguments.alone place)) ?_
      rw [readExpr, nodeExpr, arguments.kind place]
      exact .value value
  have within := within_arguments mode made arguments
  have body : (model.readGrammar mode).Derives
      (commandExpr (model.readBounds mode model.root) model.root) _ :=
    derives_commandExpr each (by rwa [List.length_map, many])
  have name : model.root.name = schema.name := by
    rw [(root_options made arguments.alone).1]
    rfl
  have texts : (values.map ([·])).flatten = values := by
    rw [← List.flatMap_def]
    exact List.flatMap_singleton' values
  rw [name, texts] at body
  exact .rule found body

/-- What the root of a command of arguments may have for items: the first argument, and others. -/
theorem alternatives_root (made : ofSchema schema = .ok model) (arguments : schema.OfArguments)
    (first : Fin schema.params.length) (zero : first.val = 0) :
    ∃ others, model.root.alternatives = schema.optionId first :: others := by
  obtain ⟨_, kind⟩ := root_options made arguments.alone
  have alone : model.root.subcommands = [] := by simp [Node.subcommands, kind]
  have params : model.root.params = List.range' 1 schema.params.length := by
    simp [Node.params, kind]
  have positive := first.2
  obtain ⟨more, same⟩ : ∃ more, schema.params.length = more + 1 :=
    ⟨schema.params.length - 1, by omega⟩
  have number : schema.optionId first = 1 := by simp [Command.optionId, zero]
  refine ⟨List.range' 2 more, ?_⟩
  rw [Node.alternatives, alone, List.nil_append, params, same, number]
  rfl

/-- The parse of as many texts as arguments gives all of them to the first one. -/
theorem parse_values (mode : RequiredParams) (made : ofSchema schema = .ok model)
    (arguments : schema.OfArguments) (first : Fin schema.params.length) (zero : first.val = 0)
    {values : List String} (many : values.length = schema.params.length) (input : String) :
    ∃ leaf branches, model.parseTokens mode input (schema.name :: values) =
        .ok ⟨input, 0, .leaf leaf :: branches⟩ ∧
      AreValues (schema.optionId first) branches values := by
  have accepts := accepts_values mode made arguments first many
  obtain ⟨children, parsed, _⟩ := Grammar.parseTokens_of_accepts (readGrammar_isClosed made mode)
    (readGrammar_isBounded model mode) input accepts
  have root := (root_options made arguments.alone).1
  have number : model.root.id = 0 := by
    rw [root]
    rfl
  have start : (model.readGrammar mode).start = 0 := number
  rw [start, ← parseTokens_eq] at parsed
  have picks := (@parseTokens_iff_picks _ _ _ _ ⟨input, 0, children⟩ made).1 parsed
  have chooses := chooses_node made picks
  have command : model.root.isCommand = true := by
    simp [Node.isCommand, Node.isParam, (root_options made arguments.alone).2]
  rw [number] at chooses
  obtain ⟨branches, same, items⟩ := chooses.of_command model.node?_zero command
  obtain ⟨others, alternatives⟩ := alternatives_root made arguments first zero
  rw [alternatives] at items
  have positional : ∀ id ∈ schema.optionId first :: others, ∃ node, model.node? id = some node ∧
      node.kind = .positional := by
    intro id member
    have alone : model.root.subcommands = [] := by
      simp [Node.subcommands, (root_options made arguments.alone).2]
    rw [← alternatives, Node.alternatives, alone, List.nil_append,
      params_root made arguments.alone] at member
    obtain ⟨place, _, rfl⟩ := List.mem_map.1 member
    exact ⟨_, node?_option made arguments.alone place, arguments.kind place⟩
  have each := areValues_of_chooses made positional items (Nat.le_refl _)
  have texts : (schema.name :: values).extract 1 (schema.name :: values).length = values := by
    simp [List.extract_eq_take_drop]
  rw [texts] at each
  obtain ⟨rfl⟩ : children = _ := (Tree.branch.inj (List.cons.inj same).1).2
  exact ⟨_, branches, parsed, each⟩

/-- The name of a command without subcommands is the word of its root. -/
theorem words_root (made : ofSchema schema = .ok model) (alone : schema.subcommands = []) :
    model.root.words = [schema.name] := by
  obtain ⟨root, kind⟩ := root_options made alone
  simp only [Node.words, kind]
  rw [root]
  rfl

/-- The only literal of a command of arguments is its name. -/
theorem triggers_arguments (made : ofSchema schema = .ok model) (arguments : schema.OfArguments)
    {trigger : String} (member : trigger ∈ (Table.ofGrammar (model.grammar mode)).triggers) :
    trigger = schema.name := by
  obtain ⟨_, node, listed, word⟩ := mem_triggers member
  have own := words_root made arguments.alone
  obtain ⟨_, rfl⟩ := ofSchema_eq_ok made
  rcases List.mem_cons.1 listed with rfl | below
  · rw [own] at word
    exact List.mem_singleton.1 word
  · rw [below_params arguments.alone] at below
    obtain ⟨place, inside, rfl⟩ := List.mem_mapIdx.1 below
    have form := arguments.positional _ (List.getElem_mem inside)
    simp [Node.words, Node.ofParam, form] at word

/-- The one argument of a command has the one text as its occurrence. -/
theorem occurrences_values (made : ofSchema schema = .ok model) (arguments : schema.OfArguments)
    (place : Fin schema.params.length) {branches : List Tree} {value : String}
    (each : AreValues (schema.optionId place) branches [value]) (leaf : Leaf)
    (defaults : Defaults) : model.occurrences defaults (.leaf leaf :: branches) =
      .ok [(schema.optionId place, .value (.string value))] := by
  obtain ⟨tree, rest, ⟨index, rfl⟩, nothing, rfl⟩ := List.forall₂_cons_right_iff.1 each
  obtain rfl := List.forall₂_nil_right_iff.1 nothing
  have field : paramField (schema.optionNode place) [.leaf ⟨.value, value, index⟩] =
      .ok (.value (.string value)) := by
    simp [paramField, firstValue?, arguments.decode]
  simp only [occurrences, occurrence, node?_option made arguments.alone, arguments.kind, field]
  rfl

/-- Branches of texts stand at the place of their argument. -/
theorem atPlaces_values {place : Fin schema.params.length} {branches : List Tree}
    {values : List String} (each : AreValues (schema.optionId place) branches values) :
    schema.AtPlaces branches (List.replicate values.length place) := by
  induction each with
  | nil => exact .nil
  | cons branch _ ih =>
    obtain ⟨index, rfl⟩ := branch
    exact .cons ⟨_, rfl⟩ ih

end Model

namespace App

variable {schema : Command} {app : App}

/-- The name of a command of arguments is not cut, and neither is a text that does not begin with
it and an equals sign. -/
theorem isWhole_arguments (made : ofSchema schema {} = .ok app) (arguments : schema.OfArguments)
    {values : List String}
    (apart : ∀ value ∈ values, ¬ Line.Joins app.deferred.triggers.contains value.toList) :
    ∀ argument ∈ schema.name :: values,
      Line.IsWhole app.deferred.triggers.contains argument := by
  obtain ⟨modelled, deferred, _⟩ := ofSchema_eq_ok made
  intro argument member
  refine Line.isWhole_of_apart ?_
  rcases List.mem_cons.1 member with rfl | later
  · rintro ⟨flag, known, begins⟩
    rw [List.contains_iff_mem, deferred] at known
    obtain rfl := Model.triggers_arguments modelled arguments known
    have longer := begins.length_le
    rw [List.length_append, List.length_singleton] at longer
    omega
  · exact apart argument later

/-- The parse of as many texts as arguments, whose first one gets all of them. -/
theorem parse_arguments (made : ofSchema schema {} = .ok app) (arguments : schema.OfArguments)
    (first : Fin schema.params.length) (zero : first.val = 0) {values : List String}
    (many : values.length = schema.params.length)
    (apart : ∀ value ∈ values, ¬ Line.Joins app.deferred.triggers.contains value.toList) :
    ∃ leaf branches, app.deferred.parse (Line.joinArguments (schema.name :: values)) =
        .ok ⟨Line.joinArguments (schema.name :: values), 0, .leaf leaf :: branches⟩ ∧
      AreValues (schema.optionId first) branches values := by
  obtain ⟨modelled, deferred, _⟩ := ofSchema_eq_ok made
  obtain ⟨leaf, branches, parsed, each⟩ := Model.parse_values .deferred modelled
    arguments first zero many (Line.joinArguments (schema.name :: values))
  have texts := Line.tokenizeWith_whole (isWhole_arguments made arguments apart)
  refine ⟨leaf, branches, ?_, each⟩
  rw [Table.parse_eq texts, deferred]
  exact parsed

/-- One text is the value of the one argument. -/
theorem resolveArguments_one (made : ofSchema schema {} = .ok app)
    (arguments : schema.OfArguments) (first : Fin schema.params.length) (zero : first.val = 0)
    (single : schema.params.length = 1) {value : String}
    (apart : ¬ Line.Joins app.deferred.triggers.contains value.toList) :
    ∃ resolved, app.resolveArguments [schema.name, value] = .ok resolved ∧
      resolved.field? (schema.optionNode first).name = some (.value (.string value)) := by
  obtain ⟨modelled, _, configured⟩ := ofSchema_eq_ok made
  have declares := Command.declares_of_check (Model.ofSchema_eq_ok modelled).1
  have checks : app.options.validate = true := by rw [configured]
  have alone : ∀ text ∈ [value], ¬ Line.Joins app.deferred.triggers.contains text.toList :=
    List.forall_mem_singleton.2 apart
  have many : [value].length = schema.params.length := single.symm
  obtain ⟨leaf, branches, parsed, each⟩ := parse_arguments made arguments first zero many alone
  have valid := (Model.violation?_eq_none_iff modelled arguments.alone (Model.atPlaces_values each)
    (Line.joinArguments [schema.name, value]) leaf).2 fun place => by
    have same : place = first := Fin.ext (by omega)
    simpa [same] using arguments.allows_one first
  have occurrences := Model.occurrences_values modelled arguments first each leaf .filled
  have nodes := Model.nodesOf_root modelled arguments.alone
  refine ⟨app.model.invocation .filled app.model.root
    [(schema.optionId first, .value (.string value))], ?_, ?_⟩
  · show app.resolveLine _ = _
    rw [resolveLine_of_valid checks parsed valid, configured]
    simp [Model.resolve, Model.node?_zero, occurrences, Except.mapError, bind, Except.bind, pure,
      Except.pure]
  · rw [Model.field?_invocation]
    · have number : (schema.optionNode first).id = schema.optionId first := rfl
      simp [Model.fieldOf?, number, Node.gather?, arguments.collects first]
    · rw [nodes, Command.names_options]
      exact declares.names
    · rw [nodes]
      exact List.mem_map_of_mem (List.mem_finRange first)

/-- Several texts are all taken for the first argument, which the check refuses. -/
theorem resolveArguments_several (made : ofSchema schema {} = .ok app)
    (arguments : schema.OfArguments) (first : Fin schema.params.length) (zero : first.val = 0)
    {values : List String} (many : values.length = schema.params.length)
    (several : 2 ≤ values.length)
    (apart : ∀ value ∈ values, ¬ Line.Joins app.deferred.triggers.contains value.toList) :
    app.resolveArguments (schema.name :: values) = .error (.occurrences
      ⟨schema.optionId first, (schema.optionNode first).name, values.length⟩) := by
  obtain ⟨modelled, _, configured⟩ := ofSchema_eq_ok made
  have checks : app.options.validate = true := by rw [configured]
  obtain ⟨leaf, branches, parsed, each⟩ := parse_arguments made arguments first zero many apart
  have places := Model.atPlaces_values each
  refine resolveLine_of_violation checks parsed ?_
  rw [Model.violation?_places modelled arguments.alone places]
  have own : schema.violationAt? first ((List.replicate values.length first).count first) =
      some ⟨schema.optionId first, (schema.optionNode first).name, values.length⟩ := by
    rw [List.count_replicate_self, Command.violationAt?, arguments.not_allows first several]
    rfl
  obtain ⟨others, listed⟩ := finRange_eq_cons zero
  rw [listed, List.findSome?_cons, own]

/-- Texts for a command of as many positional arguments. One text is the value of the one argument;
several are all taken for the first argument, which the check refuses. -/
theorem resolveArguments_values (made : ofSchema schema {} = .ok app)
    (arguments : schema.OfArguments) {values : List String}
    (many : values.length = schema.params.length)
    (apart : ∀ value ∈ values, ¬ Line.Joins app.deferred.triggers.contains value.toList) :
    (∀ param value, schema.params = [param] → values = [value] →
        ∃ resolved, app.resolveArguments (schema.name :: values) = .ok resolved ∧
          resolved.field? param.name = some (.value (.string value))) ∧
      ∀ first second others, schema.params = first :: second :: others →
        app.resolveArguments (schema.name :: values) =
          .error (.occurrences ⟨1, first.name, values.length⟩) := by
  constructor
  · intro param value declared only
    have single : schema.params.length = 1 := by rw [declared, List.length_singleton]
    let first : Fin schema.params.length := ⟨0, by omega⟩
    have name : (schema.optionNode first).name = param.name := by
      simp [Command.optionNode, Node.ofParam, first, declared]
    have found := resolveArguments_one made arguments first rfl single
      (apart value (by rw [only]; exact List.mem_singleton_self value))
    rwa [name, ← only] at found
  · intro param second others declared
    have several : 2 ≤ schema.params.length := by
      rw [declared, List.length_cons, List.length_cons]
      omega
    let first : Fin schema.params.length := ⟨0, by omega⟩
    have name : (schema.optionNode first).name = param.name := by
      simp [Command.optionNode, Node.ofParam, first, declared]
    have failed := resolveArguments_several made arguments first rfl many (by omega) apart
    rwa [name] at failed

/-- A command that copies a file to another one. -/
def copy : Command :=
  { name := "copy"
    params := [{ Param.argument "source" with required := true }, Param.argument "target"] }

/-- Its app. -/
def copyApp : App :=
  let model : Model := ⟨.ofCommand 0 none copy, Node.below 0 copy⟩
  ⟨model, model.grammar .counted, .ofGrammar (model.grammar .counted),
    .ofGrammar (model.grammar .deferred), {}⟩

/-- The second text is not taken for the second argument: with both texts the first argument has too
many. -/
theorem copy_refuses_both : ofSchema copy {} = .ok copyApp ∧
    copyApp.resolveArguments ["copy", "a", "b"] = .error (.occurrences ⟨1, "source", 2⟩) := by
  have made : ofSchema copy {} = .ok copyApp := rfl
  have arguments : copy.OfArguments := by
    refine ⟨rfl, ?_, ?_, ?_, by decide⟩ <;> simp [copy, Param.argument]
  have apart : ∀ value ∈ ["a", "b"],
      ¬ Line.Joins copyApp.deferred.triggers.contains value.toList := by
    decide +kernel
  exact ⟨made, (resolveArguments_values made arguments rfl apart).2 _ _ _ rfl⟩

/-- Not every text of a command of positional arguments is the value of the argument in its place. -/
theorem copy_lacks_target : ofSchema copy {} = .ok copyApp ∧
    ¬ ∃ resolved, copyApp.resolveArguments ["copy", "a", "b"] = .ok resolved ∧
      resolved.field? "source" = some (.value (.string "a")) ∧
      resolved.field? "target" = some (.value (.string "b")) := by
  refine ⟨rfl, ?_⟩
  have failed : (copyApp.resolveArguments ["copy", "a", "b"]).isOk = false := by decide +kernel
  intro claimed
  obtain ⟨resolved, found, _⟩ := claimed
  rw [found] at failed
  cases failed

end App

end CommandGrammar
