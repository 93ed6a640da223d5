import Mathlib
import CommandGrammar.Grammar.Compile
import CommandGrammar.Proofs.Flatten.Leveled
import CommandGrammar.Proofs.Model.Nodes

/-!
# Compiled grammars

Both grammars of a model are closed, since a production refers only to what its node
declares. Every bounded repetition in them allows some number of parts if the counts of each command
have a sum of 32 bits: the least number of parameters then adds up some of the counts that the
greatest number adds up all of. Where a sum wraps around, the greatest number may lie below the
least one, and the grammar is read with its bounds leveled.
-/

namespace CommandGrammar

/-- The nodes that a choice refers to are those that its items refer to. -/
theorem references_choice (items : List Expr) :
    (Expr.choice items).references = referencesOf items := by
  unfold Expr.choice
  split
  · simp [referencesOf]
  · simp [Expr.references]

/-- The nodes that rules refer to are their own. -/
theorem referencesOf_rules (ids : List NodeId) : referencesOf (ids.map .rule) = ids := by
  induction ids with
  | nil => rfl
  | cons id rest ih => simp [referencesOf, Expr.references, ih]

/-- A choice is bounded if its items are. -/
theorem isBounded_choice (items : List Expr) :
    (Expr.choice items).isBounded = areBounded items := by
  unfold Expr.choice
  split
  · simp [areBounded]
  · simp [Expr.isBounded]

/-- Expressions are bounded if each of them is. -/
theorem areBounded_of_forall {items : List Expr} (each : ∀ item ∈ items, item.isBounded = true) :
    areBounded items = true := by
  induction items with
  | nil => rfl
  | cons item rest ih =>
    rw [areBounded, each item List.mem_cons_self,
      ih fun other member => each other (List.mem_cons_of_mem _ member)]
    rfl

/-- Rules are bounded. -/
theorem areBounded_rules (ids : List NodeId) : areBounded (ids.map .rule) = true := by
  refine areBounded_of_forall fun item member => ?_
  obtain ⟨id, _, rfl⟩ := List.mem_map.1 member
  rfl

/-- A choice of rules is level. -/
theorem leveled_rules (ids : List NodeId) :
    (Expr.choice (ids.map .rule)).leveled = Expr.choice (ids.map .rule) :=
  leveled_of_isBounded _ (by rw [isBounded_choice, areBounded_rules])

namespace Model

variable {schema : Command} {model : Model} {mode : RequiredParams}

/-- The expression of a flag refers to no node. -/
theorem references_flagExpr (triggers : List String) (takesValue : Bool) :
    (flagExpr triggers takesValue).references = [] := by
  rw [flagExpr, references_choice]
  induction triggers with
  | nil => rfl
  | cons trigger rest ih =>
    rw [List.map_cons, referencesOf, ih]
    cases takesValue <;> simp [Expr.references, referencesOf]

/-- The expression of a node refers to what the node declares. -/
theorem references_nodeExpr (bounds : Nat × Option Nat) (node : Node) :
    (nodeExpr bounds node).references ⊆ node.declared := by
  intro id referred
  unfold nodeExpr at referred
  unfold Node.declared Node.params Node.subcommands
  split at referred
  · next kind => simp [references_flagExpr] at referred
  · simp [Expr.references] at referred
  · next params kind =>
    simp only [kind]
    have own : node.params = params := by simp [Node.params, kind]
    rw [commandExpr, own] at referred
    split at referred
    · simp [Expr.references] at referred
    · simpa [Expr.references, referencesOf, references_choice, referencesOf_rules] using referred
  · next params subcommands kind =>
    simp only [kind]
    have own : node.params = params := by simp [Node.params, kind]
    have below : node.subcommands = subcommands := by simp [Node.subcommands, kind]
    rw [groupExpr, own, below] at referred
    simp only [Expr.references, referencesOf, references_choice, referencesOf_rules,
      List.append_nil, List.nil_append] at referred
    exact List.mem_append.2 (List.mem_append.1 referred).symm

/-! ## Sums of counts -/

/-- The sum of counts wraps around at 32 bits. -/
theorem wrappingSum_eq (counts : List Nat) : wrappingSum counts = counts.sum % 2 ^ 32 := by
  unfold wrappingSum
  induction counts with
  | nil => rfl
  | cons count rest ih =>
    rw [List.foldr_cons, UInt32.toNat_add, ih, UInt32.toNat_ofNat', List.sum_cons, ← Nat.add_mod]

example : wrappingSum [1, 4294967295, 1] = 1 := by decide

/-- The sum of counts is no more than what they add up to. -/
theorem wrappingSum_le (counts : List Nat) : wrappingSum counts ≤ counts.sum :=
  wrappingSum_eq counts ▸ Nat.mod_le _ _

/-- The sum of counts is what they add up to, if that fits in 32 bits. -/
theorem wrappingSum_of_lt {counts : List Nat} (small : counts.sum < 2 ^ 32) :
    wrappingSum counts = counts.sum := by
  rw [wrappingSum_eq, Nat.mod_eq_of_lt small]

/-- The sum of counts does not depend on their order. -/
theorem wrappingSum_perm {counts others : List Nat} (order : counts.Perm others) :
    wrappingSum counts = wrappingSum others := by
  rw [wrappingSum_eq, wrappingSum_eq, order.sum_eq]

/-- Whether no sum of counts wraps around: where all counts of a command are fixed, their sum has
32 bits. -/
def sumsFit (model : Model) : Bool :=
  model.nodes.all fun command =>
    match command.kind with
    | .command _ => (model.fixedCounts? command).all (·.sum < 2 ^ 32)
    | .flag .. | .positional | .group .. => true

/-- Some of the items that have a number have numbers that add up to no more than all of them. -/
theorem sum_filter_le {α : Type} {items : List α} {number? : α → Option Nat} {numbers : List Nat}
    (known : items.mapM number? = some numbers) (keep : α → Bool) :
    ((items.filter keep).map fun item => (number? item).getD 1).sum ≤ numbers.sum := by
  rw [← map_getD_of_map_eq (mapM_eq_some_iff.1 known) 1]
  exact (List.filter_sublist.map _).sum_le_sum fun _ _ => Nat.zero_le _

/-- The counts of a command in a model whose sums fit. -/
theorem sum_lt_of_sumsFit (fits : model.sumsFit = true) {command : Node}
    (listed : command ∈ model.nodes) {params : List NodeId} (kind : command.kind = .command params)
    {counts : List Nat} (fixed : model.fixedCounts? command = some counts) :
    counts.sum < 2 ^ 32 := by
  have own := List.all_eq_true.1 fits command listed
  simpa [kind, fixed] using own

/-- The bounds of the number of parameters, where all counts are fixed. -/
theorem paramBounds_of_fixed {command : Node} {counts : List Nat}
    (fixed : model.fixedCounts? command = some counts) : model.paramBounds mode command =
      (model.minParams mode command, some (wrappingSum counts)) := by
  rw [paramBounds, maxParams, fixed]
  rfl

/-- The bounds of the number of parameters, where some count is open. -/
theorem paramBounds_of_open {command : Node} (unfixed : model.fixedCounts? command = none) :
    model.paramBounds mode command = (0, none) := by
  rw [paramBounds, maxParams, unfixed]
  rfl

/-- The least number of parameters is no more than the greatest one, if the sums fit. -/
theorem paramBounds_ordered (fits : model.sumsFit = true) (mode : RequiredParams) {command : Node}
    (listed : command ∈ model.nodes) {params : List NodeId}
    (kind : command.kind = .command params) :
    (model.paramBounds mode command).2.all ((model.paramBounds mode command).1 ≤ ·) = true := by
  cases fixed : model.fixedCounts? command with
  | none =>
    rw [paramBounds_of_open fixed]
    rfl
  | some counts =>
    have some := sum_filter_le fixed mode.counts
    rw [paramBounds_of_fixed fixed, Option.all_some, decide_eq_true_eq,
      wrappingSum_of_lt (sum_lt_of_sumsFit fits listed kind fixed)]
    exact Nat.le_trans (wrappingSum_le _) some

/-- The expression of a flag is bounded. -/
theorem isBounded_flagExpr (triggers : List String) (takesValue : Bool) :
    (flagExpr triggers takesValue).isBounded = true := by
  rw [flagExpr, isBounded_choice]
  refine areBounded_of_forall fun item member => ?_
  obtain ⟨trigger, _, rfl⟩ := List.mem_map.1 member
  split <;> rfl

/-- The expression of a node is bounded, if the bounds of the number of its parameters are level. -/
theorem isBounded_nodeExpr {bounds : Nat × Option Nat} {node : Node}
    (ordered : ∀ params, node.kind = .command params → bounds.2.all (bounds.1 ≤ ·) = true) :
    (nodeExpr bounds node).isBounded = true := by
  unfold nodeExpr
  split
  · exact isBounded_flagExpr _ _
  · rfl
  · next params kind =>
    unfold commandExpr
    split
    · rfl
    · simp [Expr.isBounded, areBounded, isBounded_choice, areBounded_rules, ordered params kind]
  · simp only [groupExpr, Expr.isBounded, areBounded, isBounded_choice, areBounded_rules]
    rfl

/-- The nodes with productions are those of the model. -/
theorem ids_grammar : (model.grammar mode).ids = model.nodes.map Node.id := by
  rw [Grammar.ids, grammar, List.map_map]
  rfl

/-- Compiled grammars are bounded, if the sums of counts fit. -/
theorem grammar_isBounded (fits : model.sumsFit = true) (mode : RequiredParams) :
    (model.grammar mode).isBounded = true := by
  rw [Grammar.isBounded, List.all_eq_true]
  intro production member
  obtain ⟨node, listed, rfl⟩ := List.mem_map.1 member
  exact isBounded_nodeExpr fun _ kind => paramBounds_ordered fits mode listed kind

/-- A command whose least number of parameters is two, and whose greatest one wraps around. -/
def overfull : Command :=
  { name := "cmd"
    params := [{ Param.option ["-a"] with required := true },
      { Param.option ["-b"] with arity := .exactly 4294967295, default := some (.string "y") },
      { Param.option ["-c"] with required := true }] }

example : ∃ model, ofSchema overfull = .ok model ∧ model.sumsFit = false ∧
    (model.grammar .counted).isBounded = false :=
  ⟨_, rfl, by decide, by decide⟩

/-- Compiled grammars are closed. -/
theorem grammar_isClosed (made : ofSchema schema = .ok model) (mode : RequiredParams) :
    (model.grammar mode).isClosed = true := by
  rw [Grammar.isClosed, Bool.and_eq_true, List.contains_iff_mem, List.all_eq_true, ids_grammar]
  constructor
  · exact List.mem_map.2 ⟨model.root, List.mem_cons_self, rfl⟩
  · intro production member
    obtain ⟨node, listed, rfl⟩ := List.mem_map.1 member
    rw [List.all_eq_true]
    intro id referred
    obtain ⟨other, found⟩ := node?_declared made listed (references_nodeExpr _ node referred)
    rw [List.contains_iff_mem]
    exact List.mem_map.2 ⟨other, List.mem_of_getElem? found, (stands_of_node? made found).id⟩

/-- The production of a node. -/
theorem production?_grammar (made : ofSchema schema = .ok model) (mode : RequiredParams)
    {id : NodeId} {node : Node} (found : model.node? id = some node) :
    (model.grammar mode).production? id =
      some ⟨node.id, ruleName node, model.exprOf mode node⟩ := by
  have known : id ∈ (model.grammar mode).ids := by
    rw [ids_grammar]
    exact List.mem_map.2 ⟨node, List.mem_of_getElem? found, (stands_of_node? made found).id⟩
  obtain ⟨production, has⟩ := Grammar.production?_isSome known
  obtain ⟨other, listed, rfl⟩ := List.mem_map.1 (Grammar.mem_of_production? has)
  have same : model.node? id = some other :=
    Grammar.id_of_production? has ▸ node?_id made listed
  rw [found] at same
  cases same
  exact has

/-- Only nodes have productions. -/
theorem node?_of_production? (made : ofSchema schema = .ok model) {id : NodeId}
    {production : Production} (has : (model.grammar mode).production? id = some production) :
    ∃ node, model.node? id = some node ∧
      production = ⟨node.id, ruleName node, model.exprOf mode node⟩ := by
  obtain ⟨node, listed, rfl⟩ := List.mem_map.1 (Grammar.mem_of_production? has)
  exact ⟨node, Grammar.id_of_production? has ▸ node?_id made listed, rfl⟩

/-! ## Grammars as they are read -/

/-- The bounds of the number of parameters of a command as they are read. -/
def readBounds (model : Model) (mode : RequiredParams) (command : Node) : Nat × Option Nat :=
  leveledBounds (model.paramBounds mode command)

/-- The expression of a node as it is read. -/
def readExpr (model : Model) (mode : RequiredParams) (node : Node) : Expr :=
  nodeExpr (model.readBounds mode node) node

/-- The grammar of a model as it is read: a greatest number of parameters below the least one, to
which a sum that wraps around may lead, counts as the least one. -/
def readGrammar (model : Model) (mode : RequiredParams) : Grammar := (model.grammar mode).leveled

/-- Where the sums of counts fit, a grammar is read as it is. -/
theorem readGrammar_of_sumsFit (fits : model.sumsFit = true) (mode : RequiredParams) :
    model.readGrammar mode = model.grammar mode :=
  Grammar.leveled_of_isBounded (grammar_isBounded fits mode)

/-- Whatever the sums of counts are, tokens are parsed and refused by the grammar as it is read. -/
theorem table_readGrammar (model : Model) (mode : RequiredParams) :
    Table.ofGrammar (model.grammar mode) = Table.ofGrammar (model.readGrammar mode) :=
  (Grammar.table_leveled _).symm

/-- Grammars as they are read are closed. -/
theorem readGrammar_isClosed (made : ofSchema schema = .ok model) (mode : RequiredParams) :
    (model.readGrammar mode).isClosed = true := by
  rw [readGrammar, Grammar.isClosed_leveled, grammar_isClosed made mode]

/-- Grammars as they are read are bounded. -/
theorem readGrammar_isBounded (model : Model) (mode : RequiredParams) :
    (model.readGrammar mode).isBounded = true :=
  Grammar.isBounded_leveled _

/-- The expression of a node is level up to the bounds of the number of its parameters. -/
theorem leveled_nodeExpr (bounds : Nat × Option Nat) (node : Node) :
    (nodeExpr bounds node).leveled = nodeExpr (leveledBounds bounds) node := by
  unfold nodeExpr
  cases node.kind with
  | flag triggers takesValue =>
    exact leveled_of_isBounded _ (isBounded_flagExpr triggers takesValue)
  | positional => rfl
  | command =>
    simp only [commandExpr]
    split
    · rfl
    · simp only [Expr.leveled, leveledAll, leveled_rules]
  | group =>
    simp only [groupExpr, Expr.leveled, leveledAll, leveled_rules, leveledBounds, Option.map_none]

/-- The productions of a grammar as it is read are those of nodes. -/
theorem mem_readGrammar {production : Production}
    (member : production ∈ (model.readGrammar mode).productions) :
    ∃ node ∈ model.nodes, production = ⟨node.id, ruleName node, model.readExpr mode node⟩ := by
  obtain ⟨own, listed, rfl⟩ := List.mem_map.1 member
  obtain ⟨node, known, rfl⟩ := List.mem_map.1 listed
  refine ⟨node, known, ?_⟩
  rw [exprOf, leveled_nodeExpr]
  rfl

/-- The production of a node as it is read. -/
theorem production?_readGrammar (made : ofSchema schema = .ok model) (mode : RequiredParams)
    {id : NodeId} {node : Node} (found : model.node? id = some node) :
    (model.readGrammar mode).production? id =
      some ⟨node.id, ruleName node, model.readExpr mode node⟩ := by
  rw [readGrammar, Grammar.production?_leveled, production?_grammar made mode found,
    Option.map_some, exprOf, leveled_nodeExpr]
  rfl

/-- Only nodes have productions as they are read. -/
theorem node?_of_read (made : ofSchema schema = .ok model) {id : NodeId} {production : Production}
    (has : (model.readGrammar mode).production? id = some production) :
    ∃ node, model.node? id = some node ∧
      production = ⟨node.id, ruleName node, model.readExpr mode node⟩ := by
  obtain ⟨node, listed, rfl⟩ := mem_readGrammar (Grammar.mem_of_production? has)
  exact ⟨node, Grammar.id_of_production? has ▸ node?_id made listed, rfl⟩

end Model

end CommandGrammar
