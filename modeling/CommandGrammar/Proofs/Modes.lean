import Mathlib
import CommandGrammar.Proofs.Model.Compiled
import CommandGrammar.Proofs.Policy.Tightened
import CommandGrammar.Tree.Occurrences

/-!
# The two modes of parsing

A line may be parsed with required parameters counted towards the least number of
parameters, or with these left to the check of occurrences. The least number counts
occurrences of any parameter, so that neither mode accepts all that the other one does:
a default-less option that is left out is missed only when parameters are counted, and a
greater least number can change which derivation is picked. The modes agree exactly
where the parse that leaves required parameters to the check has as many parameters
as are asked for when they count.
-/

namespace CommandGrammar

/-- A choice of expressions that begin with terminals is headed. -/
theorem isHeaded_choice {items : List Expr} (heads : items.all Expr.isHead = true) :
    (Expr.choice items).isHeaded = true := by
  unfold Expr.choice
  split
  · next item =>
    have head : item.isHead = true := by simpa using heads
    cases item with
    | literal | value => rfl
    | seq => exact head
    | _ => cases head
  · exact heads

/-- A choice of rules may be repeated after a terminal. -/
theorem isItem_choice (ids : List NodeId) : (Expr.choice (ids.map .rule)).isItem = true := by
  unfold Expr.choice
  split
  · next item same =>
    have member : item ∈ ids.map Expr.rule := by simp [same]
    obtain ⟨id, _, rfl⟩ := List.mem_map.1 member
    rfl
  · simp [Expr.isItem, Expr.isRule]

namespace Model

variable {schema : Command} {model : Model} {mode : RequiredParams}

/-- The expression of a node begins with a terminal. -/
theorem isHeaded_nodeExpr (bounds : Nat × Option Nat) (node : Node) :
    (nodeExpr bounds node).isHeaded = true := by
  unfold nodeExpr
  split
  · refine isHeaded_choice (List.all_eq_true.2 fun item member => ?_)
    obtain ⟨trigger, _, rfl⟩ := List.mem_map.1 member
    split <;> rfl
  · rfl
  · unfold commandExpr
    split
    · rfl
    · simp [Expr.isHeaded, Expr.isHead, Expr.isTerminal, Expr.isTail, isItem_choice]
  · simpa [groupExpr, Expr.isHeaded, Expr.isHead, Expr.isTerminal, Expr.isTail] using
      isItem_choice (node.subcommands ++ node.params)

/-- Grammars of models are headed. -/
theorem readGrammar_isHeaded (model : Model) (mode : RequiredParams) :
    (model.readGrammar mode).isHeaded = true := by
  rw [Grammar.isHeaded, List.all_eq_true]
  intro production member
  obtain ⟨node, _, rfl⟩ := mem_readGrammar member
  exact isHeaded_nodeExpr _ node

/-- What is asked of a command if required parameters count: the least number of parameters if every
count is fixed, and nothing of other nodes. -/
def leastOf (model : Model) (node : Node) : Nat :=
  match node.kind with
  | .command _ => if (model.maxParams node).isSome then model.minParams .counted node else 0
  | .flag .. | .positional | .group .. => 0

/-- What is asked of the node of a number if required parameters count. -/
def least (model : Model) (id : NodeId) : Nat := (model.node? id).elim 0 model.leastOf

/-- What counts where required parameters are left to the check counts where they count. -/
theorem counts_counted {param : Node} (counts : RequiredParams.counts .deferred param = true) :
    RequiredParams.counts .counted param = true := by
  unfold RequiredParams.counts at counts ⊢
  split <;> simp_all

/-- The counts of a smaller part of the items add up to no more than those of a larger one. -/
theorem sum_filter_mono {α : Type} {items : List α} {few many : α → Bool} {number : α → Nat}
    (within : ∀ item, few item = true → many item = true) :
    ((items.filter few).map number).sum ≤ ((items.filter many).map number).sum :=
  ((List.monotone_filter_right items within).map number).sum_le_sum fun _ _ => Nat.zero_le _

/-- The least number of parameters is no greater if required ones are left to the check, where the
sums fit. -/
theorem minParams_deferred_le {command : Node} {counts : List Nat}
    (fixed : model.fixedCounts? command = some counts) (small : counts.sum < 2 ^ 32) :
    model.minParams .deferred command ≤ model.minParams .counted command := by
  have all := sum_filter_le fixed (RequiredParams.counts .counted)
  have most := Nat.lt_of_le_of_lt all small
  refine Nat.le_trans (wrappingSum_le _) ?_
  rw [minParams, wrappingSum_of_lt most]
  exact sum_filter_mono fun _ => counts_counted

/-- The expression of a node asks for more if required parameters count, where the sums fit. -/
theorem exprOf_tightens (fits : model.sumsFit = true) {node : Node} (listed : node ∈ model.nodes) :
    (model.exprOf .counted node).Tightens (model.leastOf node) (model.exprOf .deferred node) := by
  unfold exprOf nodeExpr leastOf
  cases kind : node.kind with
  | command params =>
    simp only [commandExpr]
    by_cases none_declared : node.params.isEmpty = true
    · have nothing : model.minParams .counted node = 0 := by
        simp [minParams, List.isEmpty_iff.1 none_declared, nodesOf, wrappingSum]
      simp only [none_declared, nothing, if_true, ite_self]
      exact .same _
    · simp only [none_declared, if_false, Bool.false_eq_true, maxParams, Option.isSome_map]
      cases fixed : model.fixedCounts? node with
      | none =>
        rw [paramBounds_of_open fixed, paramBounds_of_open fixed]
        exact .same _
      | some counts =>
        have small := sum_lt_of_sumsFit fits listed kind fixed
        rw [paramBounds_of_fixed fixed, paramBounds_of_fixed fixed]
        exact .raised _ _ (isItem_choice _) (minParams_deferred_le fixed small)
  | _ => exact .same _

/-- Leaving required parameters to the check lowers the minima of the grammar and changes nothing
else, where the sums fit. -/
theorem grammar_lowers (fits : model.sumsFit = true) :
    (model.grammar .deferred).Lowers (model.grammar .counted) := by
  refine ⟨rfl, ?_⟩
  unfold grammar
  rw [List.forall₂_map_left_iff, List.forall₂_map_right_iff]
  exact List.forall₂_same.2 fun node listed => ⟨rfl, rfl, (exprOf_tightens fits listed).lowers⟩

/-- The grammar in which required parameters count tightens the other one, where the sums fit. -/
theorem grammar_tightens (made : ofSchema schema = .ok model) (fits : model.sumsFit = true) :
    (model.grammar .counted).Tightens (model.grammar .deferred) model.least := by
  have each : ∀ {one other : RequiredParams} {id : NodeId} {production : Production},
      (model.grammar one).production? id = some production →
      ∃ node ∈ model.nodes, model.least id = model.leastOf node ∧
        production.expr = model.exprOf one node ∧ (model.grammar other).production? id =
          some ⟨node.id, ruleName node, model.exprOf other node⟩ := by
    intro one other id production has
    obtain ⟨node, found, rfl⟩ := node?_of_production? made has
    exact ⟨node, List.mem_of_getElem? found, by rw [least, found]; rfl, rfl,
      production?_grammar made other found⟩
  refine ⟨rfl, ?_, ?_⟩
  · intro id production has
    obtain ⟨node, listed, asked, same, found⟩ := each has
    refine ⟨_, found, ?_⟩
    rw [asked, same]
    exact exprOf_tightens fits listed
  · intro id production has
    obtain ⟨node, listed, asked, same, found⟩ := each has
    refine ⟨_, found, ?_⟩
    rw [asked, same]
    exact exprOf_tightens fits listed

/-! ## Checked occurrences -/

/-- Trees break no rule exactly if the trees of both parts break none. -/
theorem treesViolation?_append {trees others : List Tree} :
    model.treesViolation? (trees ++ others) = none ↔
      model.treesViolation? trees = none ∧ model.treesViolation? others = none := by
  induction trees with
  | nil => simp [treesViolation?]
  | cons tree rest ih =>
    rw [List.cons_append, treesViolation?, treesViolation?, Option.or_eq_none_iff,
      Option.or_eq_none_iff, ih, and_assoc]

/-- Every parameter of a command whose counts are all fixed is required or has a default. -/
def hasDefaults (model : Model) : Bool :=
  model.nodes.all fun command =>
    match command.kind with
    | .command params => (model.maxParams command).isNone ||
        (model.nodesOf params).all fun param => param.required || param.default.isSome
    | .flag .. | .positional | .group .. => true

/-- Different numbers occur in a list at most as often as the list is long. -/
theorem sum_count_le {ids : List Nat} (distinct : ids.Nodup) (rules : List Nat) :
    (ids.map rules.count).sum ≤ rules.length := by
  induction ids generalizing rules with
  | nil => exact Nat.zero_le _
  | cons id rest ih =>
    obtain ⟨new, others⟩ := List.nodup_cons.1 distinct
    have same : rest.map (rules.filter (· != id)).count = rest.map rules.count := by
      refine List.map_congr_left fun other member => List.count_filter ?_
      have differs : other ≠ id := fun same => new (same ▸ member)
      simpa using differs
    have below := ih others (rules.filter (· != id))
    rw [same] at below
    have total := List.length_eq_length_filter_add (l := rules) (· == id)
    rw [List.map_cons, List.sum_cons, List.count_eq_length_filter, total]
    exact Nat.add_le_add_left below _

/-- The parameters that must occur, and occur as often as they may, are as many as the
occurrences of all parameters at most. -/
theorem counted_le_sum {params : List Node} {rules : List NodeId}
    (allowed : ∀ param ∈ params, param.allows (rules.count param.id) = true)
    (fixed : ∀ param ∈ params, param.fixedCount?.isSome = true)
    (defaulted : ∀ param ∈ params, (param.required || param.default.isSome) = true) :
    ((params.filter (RequiredParams.counts .counted)).map fun param =>
      param.fixedCount?.getD 1).sum ≤ (params.map fun param => rules.count param.id).sum := by
  induction params with
  | nil => exact Nat.le_refl _
  | cons param rest ih =>
    have others := ih (fun other member => allowed other (List.mem_cons_of_mem _ member))
      (fun other member => fixed other (List.mem_cons_of_mem _ member))
      (fun other member => defaulted other (List.mem_cons_of_mem _ member))
    have own := allowed param List.mem_cons_self
    have given := defaulted param List.mem_cons_self
    obtain ⟨count, known⟩ := Option.isSome_iff_exists.1 (fixed param List.mem_cons_self)
    rw [List.map_cons, List.sum_cons, List.filter_cons]
    by_cases required : param.required = true
    · have times : ¬ rules.count param.id = 0 ∧ rules.count param.id = count := by
        simpa [Node.allows, known, required] using own
      rw [if_pos (by simp [RequiredParams.counts, required]), List.map_cons, List.sum_cons, known,
        Option.getD_some]
      omega
    · have default : param.default.isSome = true := by simpa [required] using given
      have skipped : RequiredParams.counts .counted param ≠ true := by
        simp [RequiredParams.counts, required, Option.isSome_iff_ne_none.1 default]
      rw [if_neg skipped]
      omega

/-- Where the number of parameters is bounded, every count is fixed. -/
theorem fixedCount?_isSome {command : Node} (bounded : (model.maxParams command).isSome = true) :
    ∀ param ∈ model.nodesOf command.params, param.fixedCount?.isSome = true := by
  intro param member
  rw [maxParams, Option.isSome_map, fixedCounts?] at bounded
  obtain ⟨counts, fixed⟩ := Option.isSome_iff_exists.1 bounded
  exact isSome_of_map_eq (mapM_eq_some_iff.1 fixed) member

/-- A command that breaks no rule has as many parameters in it as are asked for when required ones
count, if its optional ones have defaults. -/
theorem leastOf_le (made : ofSchema schema = .ok model) (defaulted : model.hasDefaults = true)
    {command : Node} (member : command ∈ model.nodes) {children : List Tree}
    (valid : model.ownViolation? command children = none) :
    model.leastOf command ≤ (branchRules children).length := by
  have stands := stands_of_node? made (node?_id made member)
  have own := List.all_eq_true.1 defaulted command member
  unfold leastOf
  split
  · next params kind =>
    have same : command.params = params := by simp [Node.params, kind]
    have declared : command.declared = params := by
      simp [Node.declared, Node.subcommands, kind, same]
    rw [kind] at own
    simp only at own
    split
    · next known =>
      have defaults : ∀ param ∈ model.nodesOf params,
          (param.required || param.default.isSome) = true := by
        simpa [Option.isNone_iff_eq_none, Option.isSome_iff_ne_none.1 known] using own
      have fixed : ∀ param ∈ model.nodesOf params, param.fixedCount?.isSome = true :=
        same ▸ fixedCount?_isSome known
      have allowed : ∀ param ∈ model.nodesOf params,
          param.allows ((branchRules children).count param.id) = true := by
        intro param inside
        rw [ownViolation?, declared, List.findSome?_eq_none_iff] at valid
        simpa using valid param inside
      have within : ∀ id ∈ params, id < model.size := fun id inside =>
        stands.known id (declared ▸ inside)
      have ids := ids_nodesOf made within
      have distinct : params.Nodup := declared ▸ declared_nodup made member
      have total := sum_count_le distinct (branchRules children)
      rw [← ids, List.map_map] at total
      rw [minParams, same]
      exact Nat.le_trans (wrappingSum_le _)
        (Nat.le_trans (counted_le_sum allowed fixed defaults) total)
    · exact Nat.zero_le _
  · exact Nat.zero_le _
  · exact Nat.zero_le _
  · exact Nat.zero_le _

/-- What is picked for an expression without rules has no branch. -/
theorem meetAll_of_picks {grammar : Grammar} {least : NodeId → Nat} {tokens : List String}
    {expr : Expr} {start stop : Nat} {trees : List Tree} (plain : expr.references = [])
    (picks : grammar.Picks tokens expr start stop trees) : meetAll least trees = true := by
  induction picks with
  | literal | value | seqNil | absent | repetitionEnd => rfl
  | rule => cases plain
  | seqCons _ _ _ headIH tailIH =>
    obtain ⟨head, tail⟩ := List.append_eq_nil_iff.1 plain
    rw [meetAll_append, headIH head, tailIH tail]
    rfl
  | altFirst _ ih => exact ih (List.append_eq_nil_iff.1 plain).1
  | altLater _ _ ih => exact ih (List.append_eq_nil_iff.1 plain).2
  | present _ ih => exact ih plain
  | repetitionItem _ _ _ _ _ headIH tailIH =>
    rw [meetAll_append, headIH plain, tailIH plain]
    rfl

/-- The expression of a parameter refers to no node. -/
theorem references_param {node : Node} (param : node.isCommand = false) :
    (model.readExpr mode node).references = [] := by
  have none_declared : node.declared = [] := by
    unfold Node.declared Node.params Node.subcommands
    unfold Node.isCommand Node.isParam at param
    cases kind : node.kind <;> simp_all
  exact List.subset_nil.1 (none_declared ▸ references_nodeExpr _ node)

/-- What is picked with required parameters left to the check, and passes it, has as many parameters
as are asked for when these count, if the optional ones have defaults. -/
theorem meetAll_of_valid (made : ofSchema schema = .ok model) (defaulted : model.hasDefaults = true)
    {tokens : List String} {expr : Expr} {start stop : Nat} {trees : List Tree}
    (picks : (model.readGrammar .deferred).Picks tokens expr start stop trees)
    (valid : model.treesViolation? trees = none) : meetAll model.least trees = true := by
  induction picks with
  | literal | value | seqNil | absent | repetitionEnd => rfl
  | rule has body ih =>
    obtain ⟨node, found, rfl⟩ := node?_of_read made has
    rw [treesViolation?, Option.or_eq_none_iff, treeViolation?, found] at valid
    simp only [meetAll, Tree.meets, Bool.and_true, Bool.and_eq_true, decide_eq_true_eq]
    rw [least, found, Option.elim_some]
    cases command : node.isCommand with
    | true =>
      simp only [command, if_true, Option.or_eq_none_iff] at valid
      exact ⟨leastOf_le made defaulted (List.mem_of_getElem? found) valid.1.1, ih valid.1.2⟩
    | false =>
      refine ⟨?_, meetAll_of_picks (references_param command) body⟩
      unfold leastOf
      unfold Node.isCommand Node.isParam at command
      split
      · next kind => simp [kind] at command
      · exact Nat.zero_le _
      · exact Nat.zero_le _
      · exact Nat.zero_le _
  | seqCons _ _ _ headIH tailIH =>
    obtain ⟨head, tail⟩ := treesViolation?_append.1 valid
    rw [meetAll_append, headIH head, tailIH tail]
    rfl
  | altFirst _ ih => exact ih valid
  | altLater _ _ ih => exact ih valid
  | present _ ih => exact ih valid
  | repetitionItem _ _ _ _ _ headIH tailIH =>
    obtain ⟨head, tail⟩ := treesViolation?_append.1 valid
    rw [meetAll_append, headIH head, tailIH tail]
    rfl

/-! ## Agreement -/

/-- Parses tokens in a mode; the input is only kept. -/
def parseTokens (model : Model) (mode : RequiredParams) (input : String) (tokens : List String) :
    Except ParseFault Parse :=
  (Table.ofGrammar (model.grammar mode)).parseTokens input tokens

/-- Tokens have a parse in a mode, and it breaks no occurrence rule. -/
def Accepts (model : Model) (mode : RequiredParams) (input : String) (tokens : List String) :
    Prop :=
  ∃ parse, model.parseTokens mode input tokens = .ok parse ∧ model.violation? parse = none

/-- Whether tokens are accepted is told by parsing them. -/
theorem accepts_iff {input : String} {tokens : List String} :
    model.Accepts mode input tokens ↔
      (model.parseTokens mode input tokens).toOption.map model.violation? = some none := by
  unfold Accepts
  cases model.parseTokens mode input tokens with
  | error fault => simp [Except.toOption]
  | ok parse => simp [Except.toOption]

instance {input : String} {tokens : List String} : Decidable (model.Accepts mode input tokens) :=
  decidable_of_iff _ accepts_iff.symm

variable {input : String} {tokens : List String} {parse : Parse}

/-- Tokens are parsed by the grammar as it is read. -/
theorem parseTokens_eq (model : Model) (mode : RequiredParams) (input : String)
    (tokens : List String) : model.parseTokens mode input tokens =
      (Table.ofGrammar (model.readGrammar mode)).parseTokens input tokens := by
  rw [parseTokens, table_readGrammar]

/-- A parse keeps the input. -/
theorem input_of_parseTokens (made : ofSchema schema = .ok model)
    (parsed : model.parseTokens mode input tokens = .ok parse) : parse.input = input := by
  rw [parseTokens_eq] at parsed
  obtain ⟨_, rfl, _⟩ := Grammar.derivation_of_parseTokens (readGrammar_isClosed made mode)
    (readGrammar_isBounded model mode) parsed
  rfl

/-- Tokens are parsed in a mode exactly as they are picked. -/
theorem parseTokens_iff_picks (made : ofSchema schema = .ok model) :
    model.parseTokens mode parse.input tokens = .ok parse ↔
      (model.readGrammar mode).Picks tokens (.rule model.root.id) 0 tokens.length [parse.root] := by
  have closed := readGrammar_isClosed made mode
  have bounded := readGrammar_isBounded model mode
  have headed := readGrammar_isHeaded model mode
  rw [parseTokens_eq]
  exact ⟨Grammar.picks_of_parseTokens closed bounded headed,
    Grammar.parseTokens_of_picks closed bounded headed⟩

/-- Tokens have a parse in a mode exactly if the grammar as it is read derives them. -/
theorem parses_iff_accepts (made : ofSchema schema = .ok model) :
    (∃ parse, model.parseTokens mode input tokens = .ok parse) ↔
      (model.readGrammar mode).Accepts tokens := by
  simp only [parseTokens_eq]
  exact Grammar.parses_iff_accepts (readGrammar_isClosed made mode)
    (readGrammar_isBounded model mode)

/-- A parse with required parameters left to the check is the parse with these counted exactly if
its commands have as many parameters as are then asked for, where the sums of counts fit. -/
theorem counted_iff_meets (made : ofSchema schema = .ok model) (fits : model.sumsFit = true)
    (parsed : model.parseTokens .deferred input tokens = .ok parse) :
    model.parseTokens .counted input tokens = .ok parse ↔ parse.root.meets model.least = true := by
  obtain rfl := input_of_parseTokens made parsed
  have picks := (parseTokens_iff_picks made).1 parsed
  rw [readGrammar_of_sumsFit fits] at picks
  rw [parseTokens_iff_picks made, readGrammar_of_sumsFit fits,
    (grammar_tightens made fits).picks_iff picks]
  simp [meetAll]

/-- Tokens with a parse in which required parameters count have one in which they do not, where the
sums of counts fit. -/
theorem deferred_of_counted (made : ofSchema schema = .ok model) (fits : model.sumsFit = true)
    (parsed : model.parseTokens .counted input tokens = .ok parse) :
    ∃ other, model.parseTokens .deferred input tokens = .ok other := by
  have accepts := (parses_iff_accepts made).1 ⟨parse, parsed⟩
  rw [parses_iff_accepts made, readGrammar_of_sumsFit fits]
  rw [readGrammar_of_sumsFit fits] at accepts
  exact (grammar_lowers fits).accepts accepts

/-- Let no sum of counts wrap around. What the strict mode parses the lenient one parses. The strict
one has the same parse exactly if every command in it has as many parameters as the strict one asks
for; then both modes accept the tokens or neither does. Where every optional parameter has a
default, what the lenient mode accepts the strict one accepts with the same parse. -/
theorem modes_agree (made : ofSchema schema = .ok model) (fits : model.sumsFit = true)
    (input : String) (tokens : List String) :
    ((∃ parse, model.parseTokens .counted input tokens = .ok parse) →
        ∃ parse, model.parseTokens .deferred input tokens = .ok parse) ∧
      (∀ parse, model.parseTokens .deferred input tokens = .ok parse →
        (model.parseTokens .counted input tokens = .ok parse ↔
            parse.root.meets model.least = true) ∧
          (parse.root.meets model.least = true →
            (model.Accepts .counted input tokens ↔ model.Accepts .deferred input tokens))) ∧
      (model.hasDefaults = true → ∀ parse, model.parseTokens .deferred input tokens = .ok parse →
        model.violation? parse = none → model.parseTokens .counted input tokens = .ok parse) := by
  refine ⟨?_, ?_, ?_⟩
  · rintro ⟨parse, parsed⟩
    exact deferred_of_counted made fits parsed
  · intro parse parsed
    refine ⟨counted_iff_meets made fits parsed, fun meets => ?_⟩
    have counted := (counted_iff_meets made fits parsed).2 meets
    unfold Accepts
    rw [parsed, counted]
  · intro defaulted parse parsed valid
    refine (counted_iff_meets made fits parsed).2 ?_
    obtain rfl := input_of_parseTokens made parsed
    have meet := meetAll_of_valid made defaulted ((parseTokens_iff_picks made).1 parsed)
      (by rw [treesViolation?, treesViolation?, Option.or_none]; exact valid)
    simpa [meetAll] using meet

/-- A command with a required option and an optional one without default. -/
def unneeded : Command :=
  { name := "cmd"
    params := [{ Param.option ["-r"] with required := true }, Param.option ["-o"]] }

/-- A command with two required words and an option with a default. -/
def crowded : Command :=
  { name := "cmd"
    params := [{ Param.option ["-o"] with default := some (.string "y") },
      { Param.argument "p" with required := true, arity := .exactly 2 }] }

/-- A line with both options has as many parameters as the strict mode asks for, so that it is
accepted in both modes. -/
theorem both_accept : ∃ model, ofSchema unneeded = .ok model ∧
    model.Accepts .deferred "" ["cmd", "-r", "x", "-o", "y"] ∧
      model.Accepts .counted "" ["cmd", "-r", "x", "-o", "y"] := by
  let model : Model := ⟨.ofCommand 0 none unneeded, Node.below 0 unneeded⟩
  have accepted : model.Accepts .deferred "" ["cmd", "-r", "x", "-o", "y"] := by decide +kernel
  have meets : (model.parseTokens .deferred "" ["cmd", "-r", "x", "-o", "y"]).toOption.map
      (·.root.meets model.least) = some true := by decide +kernel
  have made : ofSchema unneeded = .ok model := rfl
  refine ⟨model, made, accepted, ?_⟩
  obtain ⟨parse, parsed, valid⟩ := accepted
  rw [parsed] at meets
  have fits : model.sumsFit = true := by decide +kernel
  exact (((modes_agree made fits "" _).2.1 parse parsed).2 (Option.some.inj meets)).2
    ⟨parse, parsed, valid⟩

/-- Neither mode accepts all that the other one does: an optional option without default may be
left out of a line only if required parameters do not count, and two words that are also an option
are taken for the two required ones only if these count. -/
theorem modes_differ :
    (∃ model, ofSchema unneeded = .ok model ∧ model.Accepts .deferred "" ["cmd", "-r", "x"] ∧
      ¬ model.Accepts .counted "" ["cmd", "-r", "x"]) ∧
    ∃ model, ofSchema crowded = .ok model ∧ model.Accepts .counted "" ["cmd", "-o", "x"] ∧
      ¬ model.Accepts .deferred "" ["cmd", "-o", "x"] :=
  ⟨⟨_, rfl, by decide +kernel, by decide +kernel⟩, _, rfl, by decide +kernel, by decide +kernel⟩

end Model

end CommandGrammar
