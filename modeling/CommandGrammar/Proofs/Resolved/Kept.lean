import Mathlib
import CommandGrammar.Proofs.Model.Branches
import CommandGrammar.Proofs.Model.Origins
import CommandGrammar.Proofs.Options.Resolution

/-!
# Nothing is lost in resolving

Resolving keeps one occurrence of a declaration that does not collect. Where no occurrence rule
is broken such a declaration occurs once at most, and one that collects keeps them all. As no two
declarations of a command share a name, each occurrence has its part in the field of its own
declaration, and so has, command by command, every invocation of the tree.
-/

namespace CommandGrammar

/-- What the branches of a rule among trees were matched with, in order. -/
def branchesOf (id : NodeId) : List Tree → List (List Tree)
  | [] => []
  | .leaf _ :: rest => branchesOf id rest
  | .branch rule children :: rest =>
    if rule = id then children :: branchesOf id rest else branchesOf id rest

/-- A rule has as many branches as the branches name it. -/
theorem length_branchesOf (id : NodeId) (trees : List Tree) :
    (branchesOf id trees).length = (branchRules trees).count id := by
  fun_induction branchesOf id trees with
  | case1 => rfl
  | case2 leaf rest ih => rw [ih, branchRules]
  | case3 children rest ih => rw [List.length_cons, ih, branchRules, List.count_cons_self]
  | case4 rule children rest differs ih => rw [ih, branchRules, List.count_cons_of_ne differs]

/-- The branches of a rule are branches among the trees. -/
theorem mem_branchesOf {id : NodeId} {trees own : List Tree} :
    own ∈ branchesOf id trees ↔ .branch id own ∈ trees := by
  fun_induction branchesOf id trees with
  | case1 => simp
  | case2 leaf rest ih => simp [ih]
  | case3 children rest ih => simp [ih]
  | case4 rule children rest differs ih => simp [ih, Ne.symm differs]

/-- What is made of the occurrences of a declaration, none of which it cannot use. -/
inductive Node.Gathers (node : Node) : List Field → Field → Prop where
  /-- A declaration that does not collect has the last one. -/
  | last {found : List Field} {field : Field} (alone : node.collects = false)
      (last : found.getLast? = some field) : Gathers node found field
  /-- A parameter that collects has all values. -/
  | values {values : List Value} (param : node.isParam = true) (collects : node.collects = true) :
      Gathers node (values.map .value) (.value (.list values))
  /-- A subcommand that collects has all invocations. -/
  | invocations {invocations : List Resolved} (command : node.isCommand = true)
      (collects : node.collects = true) :
      Gathers node (invocations.map .command) (.commands invocations)

namespace Model

/-- What one occurrence of a declaration is resolved to, given the children of its branch. -/
inductive StandsFor (model : Model) (defaults : Defaults) (node : Node) (own : List Tree) :
    Field → Prop where
  /-- A switch is resolved to true. -/
  | switch {triggers : List String} (kind : node.kind = .flag triggers false) :
      StandsFor model defaults node own (.value (.bool true))
  /-- Any other parameter is resolved to the value of its text. -/
  | decoded {raw : String} {value : Value} (param : node.isParam = true)
      (text : firstValue? own = some raw) (decodes : node.decode raw = .ok value) :
      StandsFor model defaults node own (.value value)
  /-- A command is resolved as if it were the root. -/
  | invocation {input : String} {inner : Resolved} (command : node.isCommand = true)
      (resolves : model.resolve defaults ⟨input, node.id, own⟩ = .ok inner) :
      StandsFor model defaults node own (.command inner)

/-- The field of a declaration, given the children of all of its branches, holds each of its
occurrences in its place. -/
inductive HoldsAll (model : Model) (defaults : Defaults) (node : Node) :
    List (List Tree) → Field → Prop where
  /-- A parameter that collects has the list of the values. -/
  | values {branches : List (List Tree)} {values : List Value} (param : node.isParam = true)
      (collects : node.collects = true)
      (each : List.Forall₂ (fun own value => model.StandsFor defaults node own (.value value))
        branches values) : HoldsAll model defaults node branches (.value (.list values))
  /-- A subcommand that collects has the list of the invocations. -/
  | invocations {branches : List (List Tree)} {invocations : List Resolved}
      (command : node.isCommand = true) (collects : node.collects = true)
      (each : List.Forall₂ (fun own inner => model.StandsFor defaults node own (.command inner))
        branches invocations) : HoldsAll model defaults node branches (.commands invocations)
  /-- Any other declaration has its one occurrence. -/
  | single {own : List Tree} {field : Field} (alone : node.collects = false)
      (stands : model.StandsFor defaults node own field) :
      HoldsAll model defaults node [own] field

/-- An invocation of a command in the tree, by the children of its branch, and what has been kept of
it in the resolved parse. -/
inductive Keeps (model : Model) (parse : Parse) (resolved : Resolved) :
    Node → List Tree → Resolved → Prop where
  /-- The root is kept. -/
  | root {command : Node} (found : model.node? parse.rule = some command) :
      Keeps model parse resolved command parse.children resolved
  /-- Of a subcommand that does not collect the last invocation is kept. -/
  | last {command node : Node} {children own : List Tree} {invocation inner : Resolved}
      (outer : Keeps model parse resolved command children invocation)
      (declared : node ∈ model.nodesOf command.declared)
      (last : (branchesOf node.id children).getLast? = some own)
      (field : invocation.field? node.name = some (.command inner)) :
      Keeps model parse resolved node own inner
  /-- Of a subcommand that collects the invocations in the list are kept. -/
  | listed {command node : Node} {children own : List Tree} {invocation inner : Resolved}
      {invocations : List Resolved} {place : Nat}
      (outer : Keeps model parse resolved command children invocation)
      (declared : node ∈ model.nodesOf command.declared)
      (occurs : (branchesOf node.id children)[place]? = some own)
      (field : invocation.field? node.name = some (.commands invocations))
      (entry : invocations[place]? = some inner) :
      Keeps model parse resolved node own inner

variable {schema : Command} {model : Model} {mode : RequiredParams} {defaults : Defaults}
  {node : Node} {trees own : List Tree} {field : Field}

/-! ## Occurrences -/

/-- A parameter stands for a value. -/
theorem StandsFor.value (stands : model.StandsFor defaults node own field)
    (param : node.isParam = true) : ∃ value, field = .value value := by
  cases stands with
  | switch => exact ⟨_, rfl⟩
  | decoded => exact ⟨_, rfl⟩
  | invocation command => simp [Node.isCommand, param] at command

/-- A command stands for an invocation. -/
theorem StandsFor.command (stands : model.StandsFor defaults node own field)
    (command : node.isCommand = true) : ∃ invocation, field = .command invocation := by
  cases stands with
  | switch kind => simp [Node.isCommand, Node.isParam, kind] at command
  | decoded param => simp [Node.isCommand, param] at command
  | invocation => exact ⟨_, rfl⟩

/-- A parameter that takes a value stands for the value of its text. -/
theorem standsFor_of_paramField (param : node.isParam = true) {raw : String}
    (text : firstValue? own = some raw) (decodes : paramField node own = .ok field) :
    model.StandsFor defaults node own field := by
  simp only [paramField, text, Option.getD_some] at decodes
  cases decoded : node.decode raw with
  | error fault =>
    rw [decoded] at decodes
    cases decodes
  | ok value =>
    rw [decoded] at decodes
    cases decodes
    exact .decoded param text decoded

/-- The branch of a node is resolved to one occurrence, which it stands for. -/
theorem standsFor_of_occurrence
    (known : model.node? node.id = some node) (fits : node.Fits own) {found : Occurrences}
    (occurs : model.occurrence defaults (.branch node.id own) = .ok found) :
    ∃ field, found = [(node.id, field)] ∧ model.StandsFor defaults node own field := by
  rw [occurrence, known] at occurs
  simp only at occurs
  cases fits with
  | switch kind =>
    simp only [kind, Except.ok.injEq] at occurs
    exact ⟨_, occurs.symm, .switch kind⟩
  | spaced kind | joined kind | positional kind =>
    simp only [kind] at occurs
    obtain ⟨field, decodes, done⟩ := bind_eq_ok_iff.1 occurs
    cases done
    have param : node.isParam = true := by simp [Node.isParam, kind]
    exact ⟨field, rfl, standsFor_of_paramField param rfl decodes⟩
  | @command place branches command each =>
    have inside : (do
        let inner ← model.occurrences defaults (.leaf ⟨.literal, node.name, place⟩ :: branches)
        return [(node.id, .command (model.invocation defaults node inner))]) =
        (.ok found : Except ResolveFault Occurrences) := by
      cases kind : node.kind with
      | flag | positional => simp [Node.isCommand, Node.isParam, kind] at command
      | command | group => simpa only [kind] using occurs
    obtain ⟨inner, below, done⟩ := bind_eq_ok_iff.1 inside
    cases done
    have resolves : model.resolve defaults
        ⟨"", node.id, .leaf ⟨.literal, node.name, place⟩ :: branches⟩ =
          .ok (model.invocation defaults node inner) := by
      rw [resolve, known]
      exact bind_eq_ok_iff.2 ⟨inner, below, rfl⟩
    exact ⟨_, rfl, .invocation command resolves⟩

/-- The occurrences of a declaration among resolved trees are what its branches stand for, in
order. -/
theorem standsFor_of_occurrences (made : ofSchema schema = .ok model)
    (known : model.node? node.id = some node)
    (admitted : ∀ tree ∈ trees, (model.readGrammar mode).Admits tree) {found : Occurrences}
    (occurs : model.occurrences defaults trees = .ok found) :
    List.Forall₂ (model.StandsFor defaults node) (branchesOf node.id trees)
      ((found.filter (·.1 == node.id)).map Prod.snd) := by
  induction trees generalizing found with
  | nil =>
    cases occurs
    exact .nil
  | cons tree rest ih =>
    rw [occurrences] at occurs
    obtain ⟨first, head, occurs⟩ := bind_eq_ok_iff.1 occurs
    obtain ⟨others, tail, done⟩ := bind_eq_ok_iff.1 occurs
    cases done
    have later := ih (fun other member => admitted other (List.mem_cons_of_mem _ member)) tail
    cases tree with
    | leaf leaf =>
      cases head
      exact later
    | branch rule children =>
      obtain ⟨own, present, fits, _⟩ := fits_of_admits made (admitted _ List.mem_cons_self)
      obtain rfl := (stands_of_node? made present).id
      obtain ⟨field, rfl, stands⟩ := standsFor_of_occurrence present fits head
      by_cases same : own.id = node.id
      · rw [same, known] at present
        cases present
        rw [branchesOf, if_pos rfl, List.singleton_append, List.filter_cons_of_pos (by simp)]
        exact .cons stands later
      · rw [branchesOf, if_neg same, List.singleton_append,
          List.filter_cons_of_neg (by simpa using same)]
        exact later

/-! ## Fields -/

/-- Fields that are all made in one way are made of something. -/
theorem exists_wrapped {α β : Type} {related : α → Field → Prop} {wrap : β → Field}
    {items : List α} {fields : List Field} (each : List.Forall₂ related items fields)
    (shape : ∀ item field, related item field → ∃ inner, field = wrap inner) :
    ∃ inners : List β, fields = inners.map wrap := by
  induction each with
  | nil => exact ⟨[], rfl⟩
  | cons head _ ih =>
    obtain ⟨inner, rfl⟩ := shape _ _ head
    obtain ⟨inners, rfl⟩ := ih
    exact ⟨inner :: inners, rfl⟩

/-- Occurrences of a declaration, if there are any, are gathered. -/
theorem exists_gathers {branches : List (List Tree)} {fields : List Field}
    (each : List.Forall₂ (model.StandsFor defaults node) branches fields) (occurs : fields ≠ []) :
    ∃ field, node.gather? fields = some field ∧ node.Gathers fields field := by
  have some_field : fields.isEmpty = false := Bool.eq_false_iff.2 (mt List.isEmpty_iff.1 occurs)
  cases collects : node.collects with
  | false =>
    have last := List.getLast?_eq_some_getLast occurs
    exact ⟨_, by simp [Node.gather?, some_field, collects, last], .last collects last⟩
  | true =>
    cases param : node.isParam with
    | true =>
      obtain ⟨values, rfl⟩ := exists_wrapped each fun _ _ stands => stands.value param
      have kept : (values.map Field.value).filterMap Field.value? = values := by
        rw [List.filterMap_map]
        exact List.filterMap_some
      exact ⟨_, by simp [Node.gather?, some_field, collects, param, kept], .values param collects⟩
    | false =>
      have command : node.isCommand = true := by simp [Node.isCommand, param]
      obtain ⟨inners, rfl⟩ := exists_wrapped each fun _ _ stands => stands.command command
      have kept : (inners.map Field.command).filterMap Field.command? = inners := by
        rw [List.filterMap_map]
        exact List.filterMap_some
      exact ⟨_, by simp [Node.gather?, some_field, collects, param, kept],
        .invocations command collects⟩

/-- What is gathered for a declaration that occurs, and only once if it does not collect, holds all
of its occurrences. -/
theorem holdsAll_of_gather {branches : List (List Tree)} {fields : List Field}
    (each : List.Forall₂ (model.StandsFor defaults node) branches fields) (occurs : branches ≠ [])
    (one : node.collects = false → branches.length = 1) :
    ∃ field, node.gather? fields = some field ∧ model.HoldsAll defaults node branches field := by
  have some_field : fields ≠ [] := by
    intro nothing
    rw [nothing] at each
    cases each
    exact occurs rfl
  obtain ⟨field, gathered, gathers⟩ := exists_gathers each some_field
  refine ⟨field, gathered, ?_⟩
  cases gathers with
  | last alone last =>
    obtain ⟨own, rfl⟩ := List.length_eq_one_iff.1 (one alone)
    cases each with
    | cons stands others =>
      cases others
      cases last
      exact .single alone stands
  | values param collects => exact .values param collects (List.forall₂_map_right_iff.1 each)
  | invocations command collects =>
    exact .invocations command collects (List.forall₂_map_right_iff.1 each)

/-! ## Invocations -/

/-- No tree breaks a rule exactly if there is no violation in them. -/
theorem treesViolation?_eq_none_iff :
    model.treesViolation? trees = none ↔ ∀ tree ∈ trees, model.treeViolation? tree = none := by
  induction trees with
  | nil => simp [treesViolation?]
  | cons tree rest ih => simp [treesViolation?, ih]

/-- An invocation of a command in a parse tree without violation, and what it is resolved to. -/
structure Resolves (model : Model) (mode : RequiredParams) (defaults : Defaults) (command : Node)
    (children : List Tree) (invocation : Resolved) : Prop where
  /-- It is a node of the model. -/
  known : model.node? command.id = some command
  /-- It is a command. -/
  isCommand : command.isCommand = true
  /-- The branch is one of a parse tree. -/
  admitted : (model.readGrammar mode).Admits (.branch command.id children)
  /-- No rule is broken in it. -/
  valid : model.treeViolation? (.branch command.id children) = none
  /-- It is resolved to the invocation. -/
  resolves : ∃ input, model.resolve defaults ⟨input, command.id, children⟩ = .ok invocation

variable {command : Node} {children : List Tree} {invocation : Resolved}

/-- Where no rule is broken, a declaration is allowed as many occurrences as it has. -/
theorem Resolves.allows (resolved : model.Resolves mode defaults command children invocation)
    (declared : node ∈ model.nodesOf command.declared) :
    node.allows (branchesOf node.id children).length = true := by
  have valid := resolved.valid
  rw [treeViolation?, resolved.known] at valid
  simp only [resolved.isCommand, if_true, Option.or_eq_none_iff] at valid
  have own := List.findSome?_eq_none_iff.1 valid.1 node declared
  rw [length_branchesOf]
  by_contra refused
  simp [refused] at own

/-- The field of a declaration that occurs under an invocation holds all of its occurrences. -/
theorem Resolves.holdsAll (made : ofSchema schema = .ok model)
    (resolved : model.Resolves mode defaults command children invocation)
    (declared : node ∈ model.nodesOf command.declared) (occurs : branchesOf node.id children ≠ []) :
    ∃ field, invocation.field? node.name = some field ∧
      model.HoldsAll defaults node (branchesOf node.id children) field := by
  obtain ⟨input, resolves⟩ := resolved.resolves
  rw [resolve, resolved.known] at resolves
  obtain ⟨inner, below, done⟩ := bind_eq_ok_iff.1 resolves
  cases done
  have known := (node?_of_declared made declared).1
  obtain ⟨_, _, _, admitted⟩ := fits_of_admits made resolved.admitted
  have each := standsFor_of_occurrences made known admitted below
  have one (alone : node.collects = false) : (branchesOf node.id children).length = 1 :=
    eq_one_of_allows (resolved.allows declared) alone (List.length_pos_iff.2 occurs)
  obtain ⟨field, gathered, holds⟩ := holdsAll_of_gather each occurs one
  refine ⟨field, ?_, holds⟩
  rw [field?_invocation (names_nodup made resolved.known) declared, fieldOf?, gathered,
    Option.some_or]

/-- What is true of an invocation is true of the invocations under it. -/
theorem Resolves.inner (made : ofSchema schema = .ok model)
    (resolved : model.Resolves mode defaults command children invocation)
    (declared : node ∈ model.nodesOf command.declared) (occurs : own ∈ branchesOf node.id children)
    {inner : Resolved} (stands : model.StandsFor defaults node own (.command inner)) :
    model.Resolves mode defaults node own inner := by
  obtain ⟨_, _, _, admitted⟩ := fits_of_admits made resolved.admitted
  have valid := resolved.valid
  rw [treeViolation?, resolved.known] at valid
  simp only [resolved.isCommand, if_true, Option.or_eq_none_iff] at valid
  have member := mem_branchesOf.1 occurs
  cases stands with
  | invocation command resolves =>
    exact ⟨(node?_of_declared made declared).1, command, admitted _ member,
      treesViolation?_eq_none_iff.1 valid.2 _ member, _, resolves⟩

/-! ## Kept invocations -/

variable {branches : List (List Tree)}

/-- A field that is one invocation holds one. -/
theorem HoldsAll.exists_command {inner : Resolved}
    (holds : model.HoldsAll defaults node branches (.command inner)) :
    ∃ own, branches = [own] ∧ model.StandsFor defaults node own (.command inner) := by
  cases holds with
  | single _ stands => exact ⟨_, rfl, stands⟩

/-- A field that is a list of invocations holds one after the other. -/
theorem HoldsAll.commands {inners : List Resolved}
    (holds : model.HoldsAll defaults node branches (.commands inners)) :
    List.Forall₂ (fun own inner => model.StandsFor defaults node own (.command inner)) branches
      inners := by
  cases holds with
  | invocations _ _ each => exact each
  | single _ stands => cases stands

variable {parse : Parse} {resolved : Resolved}

/-- What is kept of an invocation is what it is resolved to. -/
theorem Keeps.resolves (made : ofSchema schema = .ok model)
    (root : ∀ command, model.node? parse.rule = some command →
      model.Resolves mode defaults command parse.children resolved)
    (keeps : model.Keeps parse resolved command children invocation) :
    model.Resolves mode defaults command children invocation := by
  induction keeps with
  | root found => exact root _ found
  | @last command node children own invocation inner _ declared last field ih =>
    have occurs := List.mem_of_getLast? last
    obtain ⟨_, same, holds⟩ := ih.holdsAll made declared (List.ne_nil_of_mem occurs)
    rw [field] at same
    cases same
    obtain ⟨only, one, stands⟩ := holds.exists_command
    rw [one, List.getLast?_singleton, Option.some.injEq] at last
    exact ih.inner made declared occurs (last ▸ stands)
  | @listed command node children own invocation inner inners place _ declared occurs field
      entry ih =>
    have member := List.mem_of_getElem? occurs
    obtain ⟨_, same, holds⟩ := ih.holdsAll made declared (List.ne_nil_of_mem member)
    rw [field] at same
    cases same
    obtain ⟨_, there, stands⟩ := exists_related_at holds.commands occurs
    rw [entry] at there
    cases there
    exact ih.inner made declared member stands

/-- An invocation under one that is kept is kept. -/
theorem Keeps.inner (made : ofSchema schema = .ok model)
    (resolves : model.Resolves mode defaults command children invocation)
    (keeps : model.Keeps parse resolved command children invocation)
    (declared : node ∈ model.nodesOf command.declared) (isCommand : node.isCommand = true)
    (occurs : own ∈ branchesOf node.id children) :
    ∃ inner, model.Keeps parse resolved node own inner := by
  obtain ⟨field, found, holds⟩ :=
    resolves.holdsAll made declared (List.ne_nil_of_mem occurs)
  generalize same : branchesOf node.id children = branches at holds occurs
  cases holds with
  | values param => simp [Node.isCommand, param] at isCommand
  | invocations _ _ each =>
    obtain ⟨place, at_place⟩ := List.mem_iff_getElem?.1 occurs
    obtain ⟨inner, entry, _⟩ := exists_related_at each at_place
    exact ⟨inner, keeps.listed declared (same ▸ at_place) found entry⟩
  | single _ stands =>
    obtain rfl := List.mem_singleton.1 occurs
    obtain ⟨inner, rfl⟩ := stands.command isCommand
    exact ⟨inner, keeps.last declared (by rw [same]; rfl) found⟩

/-- Every invocation in the tree of a kept root is kept. -/
theorem exists_keeps (made : ofSchema schema = .ok model)
    (root : ∀ command, model.node? parse.rule = some command →
      model.Resolves mode defaults command parse.children resolved) {tree : Tree}
    (admitted : (model.readGrammar mode).Admits parse.root)
    (stands : parse.root.StandsIn tree) :
    (model.readGrammar mode).Admits tree ∧
      ∀ rule children, tree = .branch rule children →
        ∀ command, model.node? rule = some command → command.isCommand = true →
          ∃ invocation, model.Keeps parse resolved command children invocation := by
  induction stands with
  | self =>
    refine ⟨admitted, ?_⟩
    rintro rule children same command found _
    cases same
    exact ⟨resolved, .root found⟩
  | @child rule children tree _ member ih =>
    obtain ⟨node, found, fits, inside⟩ := fits_of_admits made ih.1
    refine ⟨inside tree member, ?_⟩
    rintro inner own rfl command known isCommand
    cases fits with
    | switch | spaced | joined | positional => simp at member
    | @command place branches group each =>
      obtain ⟨invocation, keeps⟩ := ih.2 rule _ rfl node found group
      rcases List.mem_cons.1 member with leaf | member
      · cases leaf
      obtain ⟨id, declared, _, same⟩ := each _ member
      cases same
      obtain rfl := (stands_of_node? made known).id
      have below : command ∈ model.nodesOf node.declared :=
        List.mem_filterMap.2 ⟨_, declared, known⟩
      refine keeps.inner made (keeps.resolves made root) below isCommand (mem_branchesOf.2 ?_)
      exact List.mem_cons_of_mem _ member

/-- Where a parse breaks no occurrence rule and can be resolved, nothing in it is lost. In every
invocation that is kept, the field of a declaration that occurs is found under its name, which is
that of no other declaration of the command, and holds each of its occurrences in its place; and
every invocation in the tree is kept. -/
theorem resolving_keeps_all (made : ofSchema schema = .ok model) {input : String}
    {tokens : List String} (parsed : model.parseTokens mode input tokens = .ok parse)
    (valid : model.violation? parse = none) (resolves : model.resolve defaults parse = .ok resolved) :
    (∀ command children invocation, model.Keeps parse resolved command children invocation →
      ∀ node ∈ model.nodesOf command.declared, branchesOf node.id children ≠ [] →
        (∀ other ∈ model.nodesOf command.declared, other.name = node.name → other = node) ∧
          ∃ field, invocation.field? node.name = some field ∧
            model.HoldsAll defaults node (branchesOf node.id children) field) ∧
      ∀ rule children, parse.root.StandsIn (.branch rule children) →
        ∀ command, model.node? rule = some command → command.isCommand = true →
          ∃ invocation, model.Keeps parse resolved command children invocation := by
  obtain ⟨start, admitted⟩ := admits_of_parseTokens made parsed
  have root (command : Node) (found : model.node? parse.rule = some command) :
      model.Resolves mode defaults command parse.children resolved := by
    have only : model.node? parse.rule = some model.root := start ▸ node?_id made List.mem_cons_self
    rw [only] at found
    cases found
    have isCommand : model.root.isCommand = true := by
      simp [Node.isCommand, (root_of_ofSchema made).2]
    have known : model.node? model.root.id = some model.root := node?_id made List.mem_cons_self
    obtain ⟨text, rule, children⟩ := parse
    obtain rfl : rule = model.root.id := start
    exact ⟨known, isCommand, admitted, valid, text, resolves⟩
  constructor
  · intro command children invocation keeps node declared occurs
    have traced := keeps.resolves made root
    refine ⟨?_, traced.holdsAll made declared occurs⟩
    intro other member same
    exact List.inj_on_of_nodup_map (names_nodup made traced.known) member declared same
  · intro rule children stands
    exact (exists_keeps made root admitted stands).2 rule children rfl

/-- A command that may be invoked several times, with an option of two values. -/
def store : Command :=
  { name := "db", multiple := true
    params := [{ Param.option ["--host"] with
      arity := .exactly 2, default := some (.list []) }] }

/-- A group with a switch, that command and another one. -/
def fleet : Command :=
  { name := "fleet"
    params := [{ Param.switch ["-v"] with multiple := true }]
    subcommands := [
      store, { name := "web", params := [{ Param.option ["--port"] with kind := .integer }] }] }

/-- A line with the subcommands and the switch in turns. -/
def fleetLine : List String :=
  ["fleet", "-v", "db", "--host", "a", "--host", "=", "b", "web", "--port", "80", "-v", "db"]

/-- Of this line both invocations of the subcommand are kept. -/
theorem fleet_keeps_all : ∃ model parse resolved, ofSchema fleet = .ok model ∧
    model.parseTokens .deferred "" fleetLine = .ok parse ∧ model.violation? parse = none ∧
      model.resolve .filled parse = .ok resolved ∧
        ∃ inners, resolved.field? "db" = some (.commands inners) ∧ inners.length = 2 := by
  let model : Model := ⟨.ofCommand 0 none fleet, Node.below 0 fleet⟩
  have made : ofSchema fleet = .ok model := rfl
  have facts : (model.parseTokens .deferred "" fleetLine).toOption.map (fun parse =>
      (parse.rule, (branchesOf 2 parse.children).length, model.violation? parse,
        (model.resolve .filled parse).toOption.isSome)) = some (0, 2, none, true) := by
    decide +kernel
  cases parsed : model.parseTokens .deferred "" fleetLine with
  | error fault =>
    rw [parsed] at facts
    cases facts
  | ok parse =>
    rw [parsed] at facts
    simp only [Except.toOption, Option.map_some, Option.some.injEq, Prod.mk.injEq] at facts
    obtain ⟨start, twice, valid, resolvable⟩ := facts
    cases resolves : model.resolve .filled parse with
    | error fault =>
      rw [resolves] at resolvable
      cases resolvable
    | ok resolved =>
      have keeps : model.Keeps parse resolved model.root parse.children resolved :=
        .root (start ▸ rfl)
      have declared : Node.ofCommand 2 (some 0) store ∈
          model.nodesOf model.root.declared := .tail _ (.head _)
      have occurs : branchesOf 2 parse.children ≠ [] := by
        rintro never
        simp [never] at twice
      obtain ⟨_, field, found, holds⟩ :=
        (resolving_keeps_all made parsed valid resolves).1 _ _ _ keeps _ declared occurs
      refine ⟨model, parse, resolved, made, parsed, valid, resolves, ?_⟩
      have number : (Node.ofCommand 2 (some 0) store).id = 2 := rfl
      rw [number] at holds
      generalize branchesOf 2 parse.children = branches at holds twice
      cases holds with
      | values param => cases param
      | invocations _ _ each => exact ⟨_, found, each.length_eq ▸ twice⟩
      | single alone => cases alone

end Model

end CommandGrammar
