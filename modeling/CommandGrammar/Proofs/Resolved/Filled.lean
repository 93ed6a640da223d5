import Mathlib
import CommandGrammar.Proofs.Resolved.Rejected
import CommandGrammar.Proofs.Resolved.Twins

/-!
# What filling in defaults adds

A parse is resolved with the defaults filled in exactly if it is resolved without them. The two
results are walked down together, one kept invocation after the other. At each of them what
occurs is the same in both, and what does not occur in this very invocation is missing in the one
and has its default in the other, if it has one and is not required.
-/

namespace CommandGrammar

/-- Fields of a declaration that are the same but for the defaults inside them. -/
inductive Node.Paired (node : Node) : Field → Field → Prop where
  /-- A parameter has the same value. -/
  | value (param : node.isParam = true) (value : Value) :
      Paired node (.value value) (.value value)
  /-- A subcommand that does not collect has one invocation. -/
  | command (command : node.isCommand = true) (alone : node.collects = false)
      (full bare : Resolved) : Paired node (.command full) (.command bare)
  /-- A subcommand that collects has as many invocations. -/
  | commands {fulls bares : List Resolved} (command : node.isCommand = true)
      (collects : node.collects = true) (same : fulls.length = bares.length) :
      Paired node (.commands fulls) (.commands bares)

/-- Occurrences are gathered in one way. -/
theorem Node.Gathers.unique {node : Node} {found : List Field} {field other : Field}
    (gathers : node.Gathers found field) (again : node.Gathers found other) : field = other := by
  cases gathers with
  | last alone last =>
    cases again with
    | last _ again => exact Option.some.inj (last.symm.trans again)
    | values _ collects | invocations _ collects => simp [alone] at collects
  | @values values param collects =>
    generalize same : values.map Field.value = found at again
    cases again with
    | last alone => simp [alone] at collects
    | values =>
      have injective : Function.Injective Field.value := fun _ _ => Field.value.inj
      rw [List.map_injective_iff.2 injective same]
    | invocations command => simp [Node.isCommand, param] at command
  | @invocations invocations command collects =>
    generalize same : invocations.map Field.command = found at again
    cases again with
    | last alone => simp [alone] at collects
    | values param => simp [Node.isCommand, param] at command
    | invocations =>
      have injective : Function.Injective Field.command := fun _ _ => Field.command.inj
      rw [List.map_injective_iff.2 injective same]

namespace Model

/-- The field of a declaration is made of what its branches, given by their children, stand for. -/
def Observed (model : Model) (defaults : Defaults) (node : Node) (branches : List (List Tree))
    (field : Field) : Prop :=
  ∃ found, List.Forall₂ (model.StandsFor defaults node) branches found ∧
    node.Gathers found field

/-- An invocation of a command that is kept, by the children of its branch: with the defaults filled
in and without them. -/
inductive KeepsBoth (model : Model) (parse : Parse) (full bare : Resolved) :
    Node → List Tree → Resolved → Resolved → Prop where
  /-- The root is kept. -/
  | root {command : Node} (found : model.node? parse.rule = some command) :
      KeepsBoth model parse full bare command parse.children full bare
  /-- Of a subcommand that does not collect the last invocation is kept. -/
  | last {command node : Node} {children own : List Tree} {filled plain inner other : Resolved}
      (outer : KeepsBoth model parse full bare command children filled plain)
      (declared : node ∈ model.nodesOf command.declared)
      (last : (branchesOf node.id children).getLast? = some own)
      (field : filled.field? node.name = some (.command inner))
      (twin : plain.field? node.name = some (.command other)) :
      KeepsBoth model parse full bare node own inner other
  /-- Of a subcommand that collects the invocations in the list are kept. -/
  | listed {command node : Node} {children own : List Tree} {filled plain inner other : Resolved}
      {inners others : List Resolved} {place : Nat}
      (outer : KeepsBoth model parse full bare command children filled plain)
      (declared : node ∈ model.nodesOf command.declared)
      (occurs : (branchesOf node.id children)[place]? = some own)
      (field : filled.field? node.name = some (.commands inners))
      (twin : plain.field? node.name = some (.commands others))
      (entry : inners[place]? = some inner) (twin_entry : others[place]? = some other) :
      KeepsBoth model parse full bare node own inner other

/-- An invocation with the defaults filled in is the same one without them and, beside that, has the
defaults of what does not occur in it. -/
structure Fills (model : Model) (command : Node) (children : List Tree) (full bare : Resolved) :
    Prop where
  /-- Both are of the command. -/
  node : full.node = command.id ∧ bare.node = command.id
  /-- Both have its name. -/
  name : full.name = command.name ∧ bare.name = command.name
  /-- Both have one field under a name. -/
  ordered : Keyed.Ordered full.fields ∧ Keyed.Ordered bare.fields
  /-- A declaration that occurs has the same field in both, made of its occurrences. -/
  observed : ∀ node ∈ model.nodesOf command.declared, branchesOf node.id children ≠ [] →
    ∃ field other, full.field? node.name = some field ∧ bare.field? node.name = some other ∧
      model.Observed .filled node (branchesOf node.id children) field ∧
      model.Observed .omitted node (branchesOf node.id children) other ∧ node.Paired field other
  /-- A declaration that does not occur has no field in the one, and its default in the other. -/
  absent : ∀ node ∈ model.nodesOf command.declared, branchesOf node.id children = [] →
    bare.field? node.name = none ∧
      full.field? node.name = if node.required then none else node.default.map .value
  /-- There is no field but those of declarations. -/
  only : ∀ name, (∀ node ∈ model.nodesOf command.declared, node.name ≠ name) →
    full.field? name = none ∧ bare.field? name = none

/-- An invocation of a command in a parse tree, and what it is resolved to with the defaults filled
in and without them. -/
structure ResolvesBoth (model : Model) (mode : RequiredParams) (command : Node)
    (children : List Tree) (full bare : Resolved) : Prop where
  /-- It is a node of the model. -/
  known : model.node? command.id = some command
  /-- The branch is one of a parse tree. -/
  admitted : (model.readGrammar mode).Admits (.branch command.id children)
  /-- What it is resolved to with the defaults filled in. -/
  filled : ∃ input, model.resolve .filled ⟨input, command.id, children⟩ = .ok full
  /-- What it is resolved to without them. -/
  omitted : ∃ input, model.resolve .omitted ⟨input, command.id, children⟩ = .ok bare

variable {schema : Command} {model : Model} {mode : RequiredParams} {defaults : Defaults}
  {command node : Node} {children own : List Tree} {branches : List (List Tree)}
  {full bare : Resolved}

/-! ## One invocation -/

/-- What an invocation is resolved to is made of what its branches stand for and of what there is
for declarations that do not occur. -/
theorem field?_of_resolve (made : ofSchema schema = .ok model)
    (known : model.node? command.id = some command)
    (admitted : (model.readGrammar mode).Admits (.branch command.id children)) {input : String}
    (resolves : model.resolve defaults ⟨input, command.id, children⟩ = .ok full)
    (declared : node ∈ model.nodesOf command.declared) :
    (branchesOf node.id children ≠ [] → ∃ field, full.field? node.name = some field ∧
      model.Observed defaults node (branchesOf node.id children) field) ∧
    (branchesOf node.id children = [] → full.field? node.name = node.absent? defaults) := by
  rw [resolve, known] at resolves
  obtain ⟨inner, below, done⟩ := bind_eq_ok_iff.1 resolves
  cases done
  obtain ⟨_, _, _, inside⟩ := fits_of_admits made admitted
  have each := standsFor_of_occurrences made (node?_of_declared made declared).1 inside below
  rw [field?_invocation (names_nodup made known) declared, fieldOf?]
  constructor
  · intro occurs
    have some_field : (inner.filter (·.1 == node.id)).map Prod.snd ≠ [] := by
      intro nothing
      rw [nothing] at each
      exact occurs (List.forall₂_nil_right_iff.1 each)
    obtain ⟨field, gathered, gathers⟩ := exists_gathers each some_field
    exact ⟨field, by rw [gathered, Option.some_or], _, each, gathers⟩
  · intro absent
    rw [absent] at each
    rw [List.forall₂_nil_left_iff.1 each]
    rfl

/-- What an invocation is resolved to is of its command, and has no field but those of what it
declares. -/
theorem shape_of_resolve (known : model.node? command.id = some command) {input : String}
    (resolves : model.resolve defaults ⟨input, command.id, children⟩ = .ok full) :
    full.node = command.id ∧ full.name = command.name ∧
      ∀ name, (∀ node ∈ model.nodesOf command.declared, node.name ≠ name) →
        full.field? name = none := by
  rw [resolve, known] at resolves
  obtain ⟨inner, below, done⟩ := bind_eq_ok_iff.1 resolves
  cases done
  exact ⟨rfl, rfl, fun name => field?_invocation_of_ne⟩

/-! ## Two fields -/

/-- What stands under a branch of a declaration fits it. -/
theorem fits_of_mem_branchesOf (made : ofSchema schema = .ok model)
    (known : model.node? node.id = some node)
    (admitted : (model.readGrammar mode).Admits (.branch command.id children))
    (occurs : own ∈ branchesOf node.id children) : node.Fits own := by
  obtain ⟨_, _, _, inside⟩ := fits_of_admits made admitted
  obtain ⟨_, found, fits, _⟩ := fits_of_admits made (inside _ (mem_branchesOf.1 occurs))
  rw [known] at found
  cases found
  exact fits

/-- A switch has no text. -/
theorem firstValue?_of_switch {triggers : List String} (kind : node.kind = .flag triggers false)
    (fits : node.Fits own) : firstValue? own = none := by
  obtain ⟨trigger, _, place, rfl⟩ := eq_of_fits_switch kind fits
  rfl

/-- An occurrence of a parameter stands for one value, with and without defaults. -/
theorem StandsFor.field_eq {field other : Field} (param : node.isParam = true)
    (fits : node.Fits own) (stands : model.StandsFor .filled node own field)
    (twin : model.StandsFor .omitted node own other) : field = other := by
  cases stands with
  | switch kind =>
    cases twin with
    | switch => rfl
    | decoded _ text =>
      rw [firstValue?_of_switch kind fits] at text
      cases text
    | invocation command => simp [Node.isCommand, param] at command
  | decoded _ text decodes =>
    cases twin with
    | switch kind =>
      rw [firstValue?_of_switch kind fits] at text
      cases text
    | decoded _ text' decodes' =>
      rw [text] at text'
      cases text'
      rw [decodes] at decodes'
      cases decodes'
      rfl
    | invocation command => simp [Node.isCommand, param] at command
  | invocation command => simp [Node.isCommand, param] at command

/-- Occurrences of a parameter stand for the same values with and without defaults. -/
theorem fields_eq_of_standsFor (param : node.isParam = true) {fields others : List Field}
    (fits : ∀ own ∈ branches, node.Fits own)
    (each : List.Forall₂ (model.StandsFor .filled node) branches fields)
    (twins : List.Forall₂ (model.StandsFor .omitted node) branches others) : fields = others := by
  induction each generalizing others with
  | nil => exact (List.forall₂_nil_left_iff.1 twins).symm
  | cons stands _ ih =>
    cases twins with
    | cons twin twins =>
      obtain ⟨first, rest⟩ := List.forall_mem_cons.1 fits
      rw [stands.field_eq param first twin, ih rest twins]

/-- A declaration that does not collect has what its last branch stands for. -/
theorem Observed.last {field : Field} (observed : model.Observed defaults node branches field)
    (alone : node.collects = false) :
    ∃ own, branches.getLast? = some own ∧ model.StandsFor defaults node own field := by
  obtain ⟨found, each, gathers⟩ := observed
  cases gathers with
  | last _ last => exact exists_last_related each.flip last
  | values _ collects | invocations _ collects => simp [alone] at collects

/-- A subcommand that collects has the invocations that its branches stand for. -/
theorem Observed.listed {field : Field} (observed : model.Observed defaults node branches field)
    (command : node.isCommand = true) (collects : node.collects = true) :
    ∃ inners, field = .commands inners ∧ List.Forall₂
      (fun own inner => model.StandsFor defaults node own (.command inner)) branches inners := by
  obtain ⟨found, each, gathers⟩ := observed
  cases gathers with
  | last alone => simp [alone] at collects
  | values param => simp [Node.isCommand, param] at command
  | invocations => exact ⟨_, rfl, List.forall₂_map_right_iff.1 each⟩

/-- A declaration that occurs has the same field with and without defaults. -/
theorem paired_of_observed {field other : Field} (fits : ∀ own ∈ branches, node.Fits own)
    (observed : model.Observed .filled node branches field)
    (twin : model.Observed .omitted node branches other) : node.Paired field other := by
  cases param : node.isParam with
  | true =>
    obtain ⟨found, each, gathers⟩ := observed
    obtain ⟨others, twins, again⟩ := twin
    obtain rfl := fields_eq_of_standsFor param fits each twins
    obtain rfl := gathers.unique again
    cases gathers with
    | last alone last =>
      obtain ⟨own, _, stands⟩ := exists_last_related each.flip last
      obtain ⟨value, rfl⟩ := StandsFor.value stands param
      exact .value param value
    | values => exact .value param _
    | invocations command => simp [Node.isCommand, param] at command
  | false =>
    have command : node.isCommand = true := by simp [Node.isCommand, param]
    cases collects : node.collects with
    | false =>
      obtain ⟨_, _, stands⟩ := observed.last collects
      obtain ⟨_, _, again⟩ := twin.last collects
      obtain ⟨full, rfl⟩ := stands.command command
      obtain ⟨bare, rfl⟩ := again.command command
      exact .command command collects full bare
    | true =>
      obtain ⟨fulls, rfl, each⟩ := observed.listed command collects
      obtain ⟨bares, rfl, twins⟩ := twin.listed command collects
      exact .commands command collects (each.length_eq.symm.trans twins.length_eq)

/-! ## All kept invocations -/

/-- An invocation with the defaults filled in is one without them and the defaults. -/
theorem ResolvesBoth.fills (made : ofSchema schema = .ok model)
    (both : model.ResolvesBoth mode command children full bare) :
    model.Fills command children full bare := by
  obtain ⟨known, admitted, ⟨_, filled⟩, _, omitted⟩ := both
  obtain ⟨node, name, only⟩ := shape_of_resolve known filled
  obtain ⟨node', name', only'⟩ := shape_of_resolve known omitted
  refine ⟨⟨node, node'⟩, ⟨name, name'⟩, ⟨ordered_of_resolve filled, ordered_of_resolve omitted⟩,
    fun node declared occurs => ?_, fun node declared absent => ?_,
    fun name differs => ⟨only name differs, only' name differs⟩⟩
  · obtain ⟨field, found, observed⟩ :=
      (field?_of_resolve made known admitted filled declared).1 occurs
    obtain ⟨other, found', observed'⟩ :=
      (field?_of_resolve made known admitted omitted declared).1 occurs
    have present := (node?_of_declared made declared).1
    have fits : ∀ own ∈ branchesOf node.id children, node.Fits own :=
      fun _ => fits_of_mem_branchesOf made present admitted
    exact ⟨field, other, found, found', observed, observed',
      paired_of_observed fits observed observed'⟩
  · rw [(field?_of_resolve made known admitted filled declared).2 absent,
      (field?_of_resolve made known admitted omitted declared).2 absent, Node.absent?, Node.absent?]
    cases node.required <;> simp

/-- What is made of an occurrence of a command with and without defaults is made of its branch. -/
theorem ResolvesBoth.inner (made : ofSchema schema = .ok model)
    (both : model.ResolvesBoth mode command children full bare)
    (declared : node ∈ model.nodesOf command.declared) (occurs : own ∈ branchesOf node.id children)
    {inner other : Resolved} (stands : model.StandsFor .filled node own (.command inner))
    (twin : model.StandsFor .omitted node own (.command other)) :
    model.ResolvesBoth mode node own inner other := by
  obtain ⟨_, _, _, inside⟩ := fits_of_admits made both.admitted
  cases stands with
  | invocation _ filled =>
    cases twin with
    | invocation _ omitted =>
      exact ⟨(node?_of_declared made declared).1, inside _ (mem_branchesOf.1 occurs),
        ⟨_, filled⟩, _, omitted⟩

variable {parse : Parse} {filled plain : Resolved}

/-- What is kept of an invocation with and without defaults is what it is resolved to. -/
theorem KeepsBoth.resolves (made : ofSchema schema = .ok model)
    (root : ∀ command, model.node? parse.rule = some command →
      model.ResolvesBoth mode command parse.children full bare)
    (keeps : model.KeepsBoth parse full bare command children filled plain) :
    model.ResolvesBoth mode command children filled plain := by
  induction keeps with
  | root found => exact root _ found
  | @last command node children own filled plain inner other outer declared last field twin ih =>
    have occurs := List.mem_of_getLast? last
    obtain ⟨_, _, same, same', observed, observed', paired⟩ :=
      (ih.fills made).observed node declared (List.ne_nil_of_mem occurs)
    rw [field] at same
    rw [twin] at same'
    cases same
    cases same'
    cases paired with
    | command _ alone =>
      obtain ⟨_, at_end, stands⟩ := observed.last alone
      obtain ⟨_, at_end', stands'⟩ := observed'.last alone
      rw [last] at at_end at_end'
      cases at_end
      cases at_end'
      exact ih.inner made declared occurs stands stands'
  | @listed command node children own filled plain inner other inners others place outer declared
      occurs field twin entry twin_entry ih =>
    have member := List.mem_of_getElem? occurs
    obtain ⟨_, _, same, same', observed, observed', paired⟩ :=
      (ih.fills made).observed node declared (List.ne_nil_of_mem member)
    rw [field] at same
    rw [twin] at same'
    cases same
    cases same'
    cases paired with
    | commands command collects =>
      obtain ⟨_, equal, each⟩ := observed.listed command collects
      obtain ⟨_, equal', each'⟩ := observed'.listed command collects
      cases equal
      cases equal'
      obtain ⟨_, there, stands⟩ := exists_related_at each occurs
      obtain ⟨_, there', stands'⟩ := exists_related_at each' occurs
      rw [entry] at there
      rw [twin_entry] at there'
      cases there
      cases there'
      exact ih.inner made declared member stands stands'

/-- All invocations of a subcommand that collects are kept. -/
theorem KeepsBoth.exists_listed
    (keeps : model.KeepsBoth parse full bare command children filled plain)
    (fills : model.Fills command children filled plain)
    (declared : node ∈ model.nodesOf command.declared) (group : node.isCommand = true)
    (collects : node.collects = true) (occurs : branchesOf node.id children ≠ []) :
    ∃ inners others, filled.field? node.name = some (.commands inners) ∧
      plain.field? node.name = some (.commands others) ∧
      ∀ (place : Nat) own, (branchesOf node.id children)[place]? = some own →
        ∃ inner other, inners[place]? = some inner ∧ others[place]? = some other ∧
          model.KeepsBoth parse full bare node own inner other := by
  obtain ⟨_, _, field, twin, observed, observed', _⟩ := fills.observed node declared occurs
  obtain ⟨inners, rfl, each⟩ := observed.listed group collects
  obtain ⟨others, rfl, twins⟩ := observed'.listed group collects
  refine ⟨inners, others, field, twin, fun place own there => ?_⟩
  obtain ⟨inner, entry, _⟩ := exists_related_at each there
  obtain ⟨other, twin_entry, _⟩ := exists_related_at twins there
  exact ⟨inner, other, entry, twin_entry,
    .listed keeps declared there field twin entry twin_entry⟩

end Model

/-- The same texts of which the same ones are rejected are decoded twice in the same way. -/
theorem Decodes.agree {α β : Type} {leaves : List Leaf} {rejected : Leaf → Undecodable → Prop}
    {result : Except ResolveFault α} {other : Except ResolveFault β}
    (increasing : leaves.Pairwise fun leaf other => leaf.index < other.index)
    (decodes : Decodes leaves rejected result) (again : Decodes leaves rejected other) :
    (∃ own, result = .error (.undecodable own) ∧ other = .error (.undecodable own)) ∨
      ∃ one two, result = .ok one ∧ other = .ok two := by
  cases decodes with
  | all one none =>
    cases again with
    | all two => exact .inr ⟨one, two, rfl, rfl⟩
    | first found => exact absurd found (none _ _)
  | @first leaf own found least =>
    cases again with
    | all _ none => exact absurd found (none _ _)
    | @first leaf' own' found' least' =>
      refine .inl ⟨own, rfl, ?_⟩
      rcases least _ _ found' with ⟨_, rfl⟩ | before
      · rfl
      rcases least' _ _ found with ⟨_, rfl⟩ | behind
      · rfl
      -- Neither of two different leaves comes before the other.
      have less := increasing.sublist before
      have more := increasing.sublist behind
      simp only [List.pairwise_cons, List.mem_singleton, forall_eq] at less more
      exact absurd less.1 (Nat.lt_asymm more.1)

namespace Model

variable {schema : Command} {model : Model} {mode : RequiredParams}

/-- A parse is resolved with the defaults filled in and without them, or neither is possible for one
and the same reason. At each invocation that is kept the fields with the defaults filled in
are those without them, of which values are the same ones and invocations the same but for
defaults of their own, together with the default of each declaration that does not occur in this
invocation, is not required and has one. -/
theorem filling_adds_defaults (made : ofSchema schema = .ok model) {input : String}
    {tokens : List String} {parse : Parse}
    (parsed : model.parseTokens mode input tokens = .ok parse) :
    (∃ own, model.resolve .filled parse = .error (.undecodable own) ∧
      model.resolve .omitted parse = .error (.undecodable own)) ∨
    ∃ full bare, model.resolve .filled parse = .ok full ∧
      model.resolve .omitted parse = .ok bare ∧
      ∀ command children filled plain,
        model.KeepsBoth parse full bare command children filled plain →
          model.Fills command children filled plain := by
  obtain ⟨start, admitted⟩ := admits_of_parseTokens made parsed
  refine (Decodes.agree (increasing_of_parseTokens made parsed)
    (decodes_resolve made .filled start admitted)
    (decodes_resolve made .omitted start admitted)).imp_right ?_
  rintro ⟨full, bare, filled, omitted⟩
  have root (command : Node) (found : model.node? parse.rule = some command) :
      model.ResolvesBoth mode command parse.children full bare := by
    obtain ⟨text, rule, branches⟩ := parse
    obtain rfl := (stands_of_node? made found).id
    exact ⟨found, admitted, ⟨text, filled⟩, text, omitted⟩
  exact ⟨full, bare, filled, omitted, fun command children inner other keeps =>
    (keeps.resolves made root).fills made⟩

/-- A command that may be invoked several times, with an option that has a default. -/
def dock : Command :=
  { name := "dock", multiple := true
    params := [{ Param.option ["--depth"] with kind := .integer, default := some (.integer 3) }] }

/-- A group with that command and an option that has a default. -/
def quay : Command :=
  { name := "quay"
    params := [{ Param.option ["--zone"] with default := some (.string "a") }]
    subcommands := [dock] }

/-- The second invocation of the command lacks the option that the first one has. -/
def quayLine : List String := ["quay", "dock", "--depth", "7", "dock"]

/-- The second invocation gets the default, and only with the defaults filled in. -/
theorem quay_filled : ∃ model parse full bare fulls bares inner other,
    ofSchema quay = .ok model ∧ model.parseTokens .deferred "" quayLine = .ok parse ∧
    model.resolve .filled parse = .ok full ∧ model.resolve .omitted parse = .ok bare ∧
    full.field? "dock" = some (.commands fulls) ∧ fulls[1]? = some inner ∧
    inner.field? "depth" = some (.value (.integer 3)) ∧
    bare.field? "dock" = some (.commands bares) ∧ bares[1]? = some other ∧
    other.field? "depth" = none := by
  let model : Model := ⟨.ofCommand 0 none quay, Node.below 0 quay⟩
  have made : ofSchema quay = .ok model := rfl
  have facts : (model.parseTokens .deferred "" quayLine).toOption.map (fun parse =>
      (parse.rule, (branchesOf 2 parse.children).map branchRules,
        (model.resolve .filled parse).toOption.isSome)) = some (0, [[3], []], true) := by
    decide +kernel
  cases parsed : model.parseTokens .deferred "" quayLine with
  | error fault =>
    rw [parsed] at facts
    cases facts
  | ok parse =>
    rw [parsed] at facts
    simp only [Except.toOption, Option.map_some, Option.some.injEq, Prod.mk.injEq] at facts
    obtain ⟨start, rules, resolvable⟩ := facts
    obtain ⟨_, failed, _⟩ | ⟨full, bare, filled, omitted, fills⟩ :=
      filling_adds_defaults made parsed
    · rw [failed] at resolvable
      cases resolvable
    · obtain ⟨first, rest, both, _, rules⟩ := List.map_eq_cons_iff.1 rules
      obtain ⟨second, others, rfl, none, _⟩ := List.map_eq_cons_iff.1 rules
      have root : model.KeepsBoth parse full bare model.root parse.children full bare :=
        .root (start ▸ rfl)
      have declared : Node.ofCommand 2 (some 0) dock ∈ model.nodesOf model.root.declared :=
        .tail _ (.head _)
      have occurs : branchesOf (Node.ofCommand 2 (some 0) dock).id parse.children =
          first :: second :: others := both
      obtain ⟨fulls, bares, field, twin, listed⟩ :=
        root.exists_listed (fills _ _ _ _ root) declared rfl rfl (by simp [occurs])
      obtain ⟨inner, other, entry, twin_entry, kept⟩ := listed 1 second (by rw [occurs]; rfl)
      have depth : Node.ofParam 3 2 (dock.params.get ⟨0, by decide⟩) ∈
          model.nodesOf (Node.ofCommand 2 (some 0) dock).declared := .head _
      have absent : branchesOf 3 second = [] := by
        rw [← List.length_eq_zero_iff, length_branchesOf, none]
        rfl
      obtain ⟨missing, default⟩ := (fills _ _ _ _ kept).absent _ depth absent
      exact ⟨model, parse, full, bare, fulls, bares, inner, other, made, parsed, filled, omitted,
        field, entry, default, twin, twin_entry, missing⟩

end Model

end CommandGrammar
