import Mathlib
import CommandGrammar.Proofs.Model.Productions
import CommandGrammar.Proofs.Options.Uses
import CommandGrammar.Proofs.Recognition
import CommandGrammar.Proofs.Schema.Check

/-!
# Reading uses of options

The tokens of uses are accepted, since their number is within the bounds that the counts of
the parameters set. Every parse of them has one branch for each use, in order: its tokens can
be cut in one way only, and a trigger belongs to one parameter.
-/

namespace CommandGrammar

/-- Characters that make a trigger: two or more, a dash in front, no blank and no equals sign. -/
theorem chars_of_isTrigger {cs : List Char} (formed : isTrigger cs = true) :
    2 ≤ cs.length ∧ cs.head? = some '-' ∧ ∀ c ∈ cs, Text.isBlank c = false ∧ c ≠ '=' := by
  have dash : Text.isBlank '-' = false ∧ '-' ≠ '=' := by decide
  have later {c : Char} (continues : continuesTrigger c = true) :
      Text.isBlank c = false ∧ c ≠ '=' := by
    simpa [continuesTrigger] using continues
  have first {c : Char} (begins : beginsTrigger c = true) : Text.isBlank c = false ∧ c ≠ '=' := by
    rw [beginsTrigger, Bool.and_eq_true] at begins
    exact later begins.1
  unfold isTrigger at formed
  split at formed
  · next c rest =>
    rw [Bool.and_eq_true, List.all_eq_true] at formed
    refine ⟨by simp, rfl, ?_⟩
    simp only [List.mem_cons, forall_eq_or_imp]
    exact ⟨dash, dash, first formed.1, fun other member => later (formed.2 other member)⟩
  · next c rest _ =>
    rw [Bool.and_eq_true, List.all_eq_true] at formed
    refine ⟨by simp, rfl, ?_⟩
    simp only [List.mem_cons, forall_eq_or_imp]
    exact ⟨dash, first formed.1, fun other member => later (formed.2 other member)⟩
  · cases formed

namespace Command

variable {schema : Command}

/-- A trigger belongs to one parameter only. -/
theorem Declares.place_unique (declares : schema.Declares) {trigger : String}
    {place other : Fin schema.params.length} (here : trigger ∈ schema.triggersAt place)
    (there : trigger ∈ schema.triggersAt other) : place = other := by
  have apart := List.pairwise_iff_getElem.1 (List.nodup_flatMap.1 declares.triggers).2
  rcases Nat.lt_trichotomy place other with below | same | above
  · exact absurd there (apart place other place.2 other.2 below here)
  · exact Fin.ext same
  · exact absurd here (apart other place other.2 place.2 above there)

/-- The triggers of a parameter have the form of ones. -/
theorem Declares.isTrigger (declares : schema.Declares) {trigger : String}
    {place : Fin schema.params.length} (known : trigger ∈ schema.triggersAt place) :
    CommandGrammar.isTrigger trigger.toList = true :=
  declares.formed trigger (List.mem_flatMap.2 ⟨_, List.getElem_mem place.2, known⟩)

/-- No trigger is an equals sign. -/
theorem Declares.trigger_ne (declares : schema.Declares) {trigger : String}
    {place : Fin schema.params.length} (known : trigger ∈ schema.triggersAt place) :
    trigger ≠ "=" := by
  rintro rfl
  have length := (chars_of_isTrigger (declares.isTrigger known)).1
  exact absurd length (by decide)

/-- An option is a flag that takes a value. -/
theorem OfOptions.kind (options : schema.OfOptions) (place : Fin schema.params.length) :
    (schema.optionNode place).kind = .flag (schema.triggersAt place) true := by
  obtain ⟨triggers, form⟩ := options.flags schema.params[place] (List.getElem_mem place.2)
  simp only [optionNode, triggersAt, Node.ofParam, Param.triggers, form]

/-- Options have triggers that some parameter has. -/
def Knows (schema : Command) (chunks : List Chunk) : Prop :=
  ∀ chunk ∈ chunks, ∃ place, chunk.trigger ∈ schema.triggersAt place

/-- No trigger of options with known triggers is an equals sign. -/
theorem Knows.areProper {chunks : List Chunk} (knows : schema.Knows chunks)
    (declares : schema.Declares) : Chunk.AreProper chunks := by
  intro chunk member
  obtain ⟨place, known⟩ := knows chunk member
  exact declares.trigger_ne known

end Command

namespace Model

variable {schema : Command} {model : Model} {mode : RequiredParams}

/-! ## The root -/

/-- What the root of a command without subcommands derives. -/
theorem production?_root (made : ofSchema schema = .ok model) (alone : schema.subcommands = [])
    (mode : RequiredParams) :
    ∃ name, (model.readGrammar mode).production? (model.readGrammar mode).start =
      some ⟨0, name, commandExpr (model.readBounds mode model.root) model.root⟩ := by
  obtain ⟨root, kind⟩ := root_options made alone
  have number : model.root.id = 0 := by
    rw [root]
    rfl
  refine ⟨ruleName model.root, ?_⟩
  have found := production?_readGrammar made mode model.node?_zero
  have start : (model.readGrammar mode).start = 0 := number
  rw [start]
  rwa [readExpr, nodeExpr, kind, number] at found

/-- The parameters of the root. -/
theorem params_root (made : ofSchema schema = .ok model) (alone : schema.subcommands = []) :
    model.root.params = (List.finRange schema.params.length).map schema.optionId := by
  have kind := (root_options made alone).2
  rw [← declared_root made alone]
  simp [Node.declared, Node.subcommands, kind]

/-- The counts of the parameters of the root, if every one is fixed. -/
theorem fixedCounts?_root_iff (made : ofSchema schema = .ok model)
    (alone : schema.subcommands = []) {counts : List Nat} :
    model.fixedCounts? model.root = some counts ↔
      (List.finRange schema.params.length).map (fun place =>
        (schema.optionNode place).fixedCount?) = counts.map some := by
  have params : model.root.params = model.root.declared := by
    rw [params_root made alone, declared_root made alone]
  rw [fixedCounts?, params, nodesOf_root made alone, mapM_eq_some_iff, List.map_map]
  rfl

/-- A parse by the grammar of a command without subcommands is the leaf of the name and branches of
parameters, as many as their counts allow. -/
theorem parse_root (made : ofSchema schema = .ok model) (alone : schema.subcommands = [])
    {input : String} {tokens : List String} {parse : Parse}
    (parsed : (Table.ofGrammar (model.grammar mode)).parseTokens input tokens = .ok parse) :
    ∃ leaf branches, parse = ⟨input, 0, .leaf leaf :: branches⟩ ∧
      tokens = schema.name :: tokensOf branches ∧
      (∀ tree ∈ branches, (model.readGrammar mode).Admits tree ∧
        ∃ place children, tree = .branch (schema.optionId place) children) ∧
      Within (model.readBounds mode model.root) branches.length := by
  rw [table_readGrammar] at parsed
  obtain ⟨children, same, admitted, leaves⟩ := Grammar.derivation_of_parseTokens
    (readGrammar_isClosed made mode) (readGrammar_isBounded model mode) parsed
  obtain ⟨_, found⟩ := production?_root made alone mode
  have root := (root_options made alone).1
  have number : (model.readGrammar mode).start = 0 := by
    rw [readGrammar, Grammar.leveled, grammar, root]
    rfl
  have name : model.root.name = schema.name := by
    rw [root]
    rfl
  cases admitted with
  | branch listed matched inner =>
    rw [found] at listed
    cases listed
    obtain ⟨index, branches, rfl, each, within⟩ := matches_commandExpr matched
    have texts := Grammar.tokensOf_of_leaves leaves
    refine ⟨_, branches, number ▸ same, ?_, fun tree member => ?_, within⟩
    · rw [← texts, ← name]
      rfl
    · obtain ⟨id, declared, children, rfl⟩ := each tree member
      rw [params_root made alone] at declared
      obtain ⟨place, _, rfl⟩ := List.mem_map.1 declared
      exact ⟨inner _ (List.mem_cons_of_mem _ member), place, children, rfl⟩

/-! ## Options -/

/-- An option derives each of its triggers with each value. -/
theorem derives_option (made : ofSchema schema = .ok model) (options : schema.OfOptions)
    {place : Fin schema.params.length} {chunk : Chunk}
    (known : chunk.trigger ∈ schema.triggersAt place) :
    (model.readGrammar mode).Derives (.rule (schema.optionId place)) chunk.tokens := by
  refine .rule (production?_readGrammar made mode (node?_option made options.alone place)) ?_
  rw [readExpr, nodeExpr, options.kind place]
  exact derives_flagExpr known

/-- The tokens of options are accepted, if there are as many as the bounds allow. -/
theorem accepts_options (made : ofSchema schema = .ok model) (options : schema.OfOptions)
    {chunks : List Chunk} (knows : schema.Knows chunks)
    (within : Within (model.readBounds mode model.root) chunks.length) :
    (model.readGrammar mode).Accepts (schema.name :: chunks.flatMap Chunk.tokens) := by
  obtain ⟨_, found⟩ := production?_root made options.alone mode
  have each : ∀ part ∈ chunks.map Chunk.tokens, ∃ id ∈ model.root.params,
      (model.readGrammar mode).Derives (.rule id) part := by
    intro part member
    obtain ⟨chunk, listed, rfl⟩ := List.mem_map.1 member
    obtain ⟨place, known⟩ := knows chunk listed
    refine ⟨schema.optionId place, ?_, derives_option made options known⟩
    rw [params_root made options.alone]
    exact List.mem_map_of_mem (List.mem_finRange _)
  have body : (model.readGrammar mode).Derives
      (commandExpr (model.readBounds mode model.root) model.root) _ :=
    derives_commandExpr each (by simpa using within)
  have name : model.root.name = schema.name := by
    rw [(root_options made options.alone).1]
    rfl
  rw [name, ← List.flatMap_def] at body
  exact .rule found body

/-- A branch of an option: its tokens are a trigger of the parameter and a value. -/
structure IsOption (schema : Command) (tree : Tree) (place : Fin schema.params.length)
    (chunk : Chunk) : Prop where
  /-- The trigger is one of the parameter. -/
  known : chunk.trigger ∈ schema.triggersAt place
  /-- The tokens are those of the option, and the value is its text. -/
  branch : ∃ children, tree = .branch (schema.optionId place) children ∧
    tokensOf children = chunk.tokens ∧ firstValue? children = some chunk.text

/-- A branch that the grammar admits under the root is one of an option. -/
theorem isOption_of_admits (made : ofSchema schema = .ok model) (options : schema.OfOptions)
    {place : Fin schema.params.length} {children : List Tree}
    (admitted : (model.readGrammar mode).Admits (.branch (schema.optionId place) children)) :
    ∃ chunk, IsOption schema (.branch (schema.optionId place) children) place chunk := by
  cases admitted with
  | branch found matched _ =>
    rw [production?_readGrammar made mode (node?_option made options.alone place)] at found
    cases found
    rw [readExpr, nodeExpr, options.kind place] at matched
    obtain ⟨chunk, known, tokens, value⟩ := matches_flagExpr matched
    exact ⟨chunk, known, children, rfl, tokens, value⟩

/-- Branches of options, one for each. -/
def AreOptions (schema : Command) (branches : List Tree) (chunks : List Chunk) : Prop :=
  List.Forall₂ (fun tree chunk => ∃ place, IsOption schema tree place chunk) branches chunks

/-- The branches of options have known triggers and the tokens of the options. -/
theorem AreOptions.tokens {branches : List Tree} {chunks : List Chunk}
    (are : AreOptions schema branches chunks) :
    schema.Knows chunks ∧ tokensOf branches = chunks.flatMap Chunk.tokens := by
  induction are with
  | nil => exact ⟨by simp [Command.Knows], rfl⟩
  | cons isOption _ ih =>
    obtain ⟨place, option⟩ := isOption
    obtain ⟨children, rfl, own, _⟩ := option.branch
    obtain ⟨knows, tokens⟩ := ih
    refine ⟨List.forall_mem_cons.2 ⟨⟨place, option.known⟩, knows⟩, ?_⟩
    rw [List.flatMap_cons, ← own, ← tokens]
    simp [tokensOf, leavesOf, Tree.leaves]

/-- Branches that are each one of an option are those of a list of options. -/
theorem exists_options {branches : List Tree}
    (each : ∀ tree ∈ branches, ∃ place chunk, IsOption schema tree place chunk) :
    ∃ chunks, AreOptions schema branches chunks := by
  induction branches with
  | nil => exact ⟨[], .nil⟩
  | cons tree rest ih =>
    obtain ⟨place, chunk, option⟩ := each tree List.mem_cons_self
    obtain ⟨chunks, others⟩ := ih fun other member => each other (List.mem_cons_of_mem _ member)
    exact ⟨chunk :: chunks, .cons ⟨place, option⟩ others⟩

/-- The parse of options has a leaf for the name and a branch for each of them, and there are as
many as the bounds allow. -/
theorem parse_options (made : ofSchema schema = .ok model) (options : schema.OfOptions)
    {chunks : List Chunk} (knows : schema.Knows chunks) {input : String} {parse : Parse}
    (parsed : (Table.ofGrammar (model.grammar mode)).parseTokens input
      (schema.name :: chunks.flatMap Chunk.tokens) = .ok parse) :
    ∃ leaf branches, parse = ⟨input, 0, .leaf leaf :: branches⟩ ∧
      AreOptions schema branches chunks ∧
      Within (model.readBounds mode model.root) chunks.length := by
  have declares := Command.declares_of_check (ofSchema_eq_ok made).1
  obtain ⟨leaf, branches, rfl, tokens, admitted, within⟩ := parse_root made options.alone parsed
  have each : ∀ tree ∈ branches, ∃ place chunk, IsOption schema tree place chunk := by
    intro tree member
    obtain ⟨admits, place, children, rfl⟩ := admitted tree member
    exact ⟨place, isOption_of_admits made options admits⟩
  obtain ⟨others, are⟩ := exists_options each
  -- The tokens can be cut into options in one way only.
  have same : others = chunks := by
    refine Chunk.tokens_injective (are.tokens.1.areProper declares) (knows.areProper declares) ?_
    rw [← are.tokens.2]
    exact (List.cons.inj tokens).2.symm
  rw [same] at are
  refine ⟨leaf, branches, rfl, are, ?_⟩
  rw [← are.length_eq]
  exact within

/-- Options have a parse if there are as many as the bounds allow. -/
theorem exists_parse_options (made : ofSchema schema = .ok model) (options : schema.OfOptions)
    {chunks : List Chunk} (knows : schema.Knows chunks)
    (within : Within (model.readBounds mode model.root) chunks.length) (input : String) :
    ∃ leaf branches, (Table.ofGrammar (model.grammar mode)).parseTokens input
        (schema.name :: chunks.flatMap Chunk.tokens) = .ok ⟨input, 0, .leaf leaf :: branches⟩ ∧
      AreOptions schema branches chunks := by
  have accepts := accepts_options made options knows within
  obtain ⟨children, parsed, _⟩ := Grammar.parseTokens_of_accepts
    (readGrammar_isClosed made mode) (readGrammar_isBounded model mode) input accepts
  rw [← table_readGrammar] at parsed
  obtain ⟨leaf, branches, same, are, _⟩ := parse_options made options knows parsed
  exact ⟨leaf, branches, same ▸ parsed, are⟩

/-! ## Uses -/

end Model

end CommandGrammar
