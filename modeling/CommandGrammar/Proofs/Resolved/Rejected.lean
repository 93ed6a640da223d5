import Mathlib
import CommandGrammar.Proofs.Resolved.Accounted

/-!
# Texts that are rejected

Resolving decodes the text of every parameter that takes one, in the order of the line, at every
depth and whether its value is kept or not. So it fails exactly if some text in the tree is
rejected, and the fault is that of the first one.
-/

namespace CommandGrammar

namespace Model

/-- A text in a tree that its parameter cannot decode: the leaf and the fault. -/
inductive Rejects (model : Model) : Tree → Leaf → Undecodable → Prop where
  /-- The text of a positional argument or of a flag that takes a value. -/
  | here {node : Node} {own : List Tree} {leaf : Leaf} {reason : DecodeFault}
      (present : model.node? node.id = some node)
      (takes : node.kind = .positional ∨ ∃ triggers, node.kind = .flag triggers true)
      (member : .leaf leaf ∈ own) (value : leaf.kind = .value)
      (refused : node.decode leaf.text = .error reason) :
      Rejects model (.branch node.id own) leaf ⟨node.id, node.name, leaf.text, reason⟩
  /-- A text further inside. -/
  | inside {rule : NodeId} {children : List Tree} {child : Tree} {leaf : Leaf}
      {fault : Undecodable} (member : child ∈ children)
      (inner : Rejects model child leaf fault) : Rejects model (.branch rule children) leaf fault

/-- A text in one of several trees that its parameter cannot decode. -/
def RejectsAmong (model : Model) (trees : List Tree) (leaf : Leaf) (fault : Undecodable) : Prop :=
  ∃ tree ∈ trees, model.Rejects tree leaf fault

end Model

/-- What comes of decoding texts among leaves from left to right, some of which are rejected. -/
inductive Decodes {α : Type} (leaves : List Leaf) (rejected : Leaf → Undecodable → Prop) :
    Except ResolveFault α → Prop where
  /-- It succeeds if none is. -/
  | all (result : α) (none : ∀ leaf fault, ¬ rejected leaf fault) :
      Decodes leaves rejected (.ok result)
  /-- Otherwise it fails with the first one. -/
  | first {leaf : Leaf} {fault : Undecodable} (found : rejected leaf fault)
      (least : ∀ other later, rejected other later →
        (other = leaf ∧ later = fault) ∨ [leaf, other].Sublist leaves) :
      Decodes leaves rejected (.error (.undecodable fault))

namespace Decodes

variable {α β γ : Type} {leaves others : List Leaf} {rejected refused : Leaf → Undecodable → Prop}
  {result : Except ResolveFault α} {further : Except ResolveFault β}

/-- Only what is rejected counts. -/
theorem of_iff (decodes : Decodes leaves rejected result)
    (same : ∀ leaf fault, refused leaf fault ↔ rejected leaf fault) :
    Decodes leaves refused result := by
  have equal : refused = rejected := funext₂ fun leaf fault => propext (same leaf fault)
  exact equal ▸ decodes

/-- What is made of the result does not count. -/
theorem map (decodes : Decodes leaves rejected result) (use : α → γ) :
    Decodes leaves rejected (do return use (← result)) := by
  cases decodes with
  | all value none => exact .all _ none
  | first found least => exact .first found least

/-- Texts that are decoded after others come later. -/
theorem both (decodes : Decodes leaves rejected result) (later : Decodes others refused further)
    (inside : ∀ leaf fault, rejected leaf fault → leaf ∈ leaves)
    (behind : ∀ leaf fault, refused leaf fault → leaf ∈ others) (use : α → β → γ) :
    Decodes (leaves ++ others) (fun leaf fault => rejected leaf fault ∨ refused leaf fault)
      (do
        let one ← result
        let other ← further
        return use one other) := by
  cases decodes with
  | all value none =>
    cases later with
    | all value none' =>
      exact .all _ fun leaf fault either => either.elim (none leaf fault) (none' leaf fault)
    | first found least =>
      refine .first (.inr found) fun other fault either => ?_
      have further := least other fault (either.resolve_left (none other fault))
      exact further.imp_right fun sublist => List.sublist_append_of_sublist_right sublist
  | first found least =>
    refine .first (.inl found) fun other fault either => ?_
    rcases either with own | after
    · have further := least other fault own
      exact further.imp_right fun sublist => List.sublist_append_of_sublist_left sublist
    · have head := List.singleton_sublist.2 (inside _ _ found)
      have tail := List.singleton_sublist.2 (behind _ _ after)
      exact .inr (head.append tail)

end Decodes

namespace Model

variable {schema : Command} {model : Model} {mode : RequiredParams} {defaults : Defaults}
  {node : Node} {tree : Tree} {trees children : List Tree} {leaf : Leaf} {fault : Undecodable}

/-- A text that is rejected is a leaf of the tree. -/
theorem Rejects.mem_leaves (rejects : model.Rejects tree leaf fault) : leaf ∈ tree.leaves := by
  induction rejects with
  | here _ _ member => exact leaves_subset_leavesOf member (List.mem_singleton_self _)
  | inside member _ ih => exact leaves_subset_leavesOf member ih

/-- A text that is rejected is a leaf of the trees. -/
theorem RejectsAmong.mem_leavesOf (rejects : model.RejectsAmong trees leaf fault) :
    leaf ∈ leavesOf trees := by
  obtain ⟨tree, member, inside⟩ := rejects
  exact leaves_subset_leavesOf member inside.mem_leaves

/-- In a branch of a node that takes no value itself only texts further inside are rejected. -/
theorem rejects_branch_iff (present : model.node? node.id = some node)
    (plain : ¬ (node.kind = .positional ∨ ∃ triggers, node.kind = .flag triggers true)) :
    model.Rejects (.branch node.id children) leaf fault ↔
      model.RejectsAmong children leaf fault := by
  constructor
  · generalize same : Tree.branch node.id children = tree
    intro rejects
    cases rejects with
    | here present' takes =>
      obtain ⟨one, rfl⟩ := Tree.branch.inj same
      rw [one, present'] at present
      cases present
      exact absurd takes plain
    | inside member inner =>
      obtain ⟨_, rfl⟩ := Tree.branch.inj same
      exact ⟨_, member, inner⟩
  · rintro ⟨tree, member, inner⟩
    exact .inside member inner

/-- In a branch of a parameter that has one value leaf the text of that leaf may be rejected. -/
theorem rejects_param_iff (present : model.node? node.id = some node)
    (takes : node.kind = .positional ∨ ∃ triggers, node.kind = .flag triggers true)
    {before : List Leaf} {text : String} {place : Nat}
    (plain : ∀ leaf ∈ before, leaf.kind = .literal) :
    model.Rejects (.branch node.id (before.map .leaf ++ [.leaf ⟨.value, text, place⟩])) leaf
      fault ↔ leaf = ⟨.value, text, place⟩ ∧ ∃ reason, node.decode text = .error reason ∧
        fault = ⟨node.id, node.name, text, reason⟩ := by
  constructor
  · generalize same : Tree.branch node.id _ = tree
    intro rejects
    cases rejects with
    | here present' takes member value refused =>
      obtain ⟨one, rfl⟩ := Tree.branch.inj same
      rw [one, present'] at present
      cases present
      rcases List.mem_append.1 member with literal | last
      · obtain ⟨other, inside, equal⟩ := List.mem_map.1 literal
        cases equal
        rw [plain _ inside] at value
        cases value
      · cases List.mem_singleton.1 last
        exact ⟨rfl, _, refused, rfl⟩
    | inside member inner =>
      obtain ⟨_, rfl⟩ := Tree.branch.inj same
      rcases List.mem_append.1 member with literal | last
      · obtain ⟨other, _, rfl⟩ := List.mem_map.1 literal
        cases inner
      · cases List.mem_singleton.1 last
        cases inner
  · rintro ⟨rfl, reason, refused, rfl⟩
    exact .here present takes (List.mem_append_right _ (List.mem_singleton_self _)) rfl refused

/-- What fits a parameter that takes a value has one value leaf, behind literals. -/
theorem exists_value_leaf (fits : node.Fits children)
    (takes : node.kind = .positional ∨ ∃ triggers, node.kind = .flag triggers true) :
    ∃ (before : List Leaf) (text : String) (place : Nat),
      children = before.map .leaf ++ [.leaf ⟨.value, text, place⟩] ∧
        (∀ leaf ∈ before, leaf.kind = .literal) ∧ firstValue? children = some text := by
  cases fits with
  | switch kind => simp [kind] at takes
  | @spaced _ trigger text place last =>
    exact ⟨[⟨.literal, trigger, place⟩], text, last, rfl, by simp, rfl⟩
  | @joined _ trigger text place sign last =>
    exact ⟨[⟨.literal, trigger, place⟩, ⟨.literal, "=", sign⟩], text, last, rfl, by simp, rfl⟩
  | @positional text place => exact ⟨[], text, place, rfl, by simp, rfl⟩
  | command command =>
    have no_param : node.isParam = false := by simpa [Node.isCommand] using command
    obtain kind | ⟨triggers, kind⟩ := takes <;> simp [Node.isParam, kind] at no_param

/-- Resolving a branch of a parameter that takes a value decodes its text. -/
theorem decodes_paramField (present : model.node? node.id = some node)
    (fits : node.Fits children)
    (takes : node.kind = .positional ∨ ∃ triggers, node.kind = .flag triggers true) :
    Decodes (leavesOf children) (model.Rejects (.branch node.id children))
      (do return [(node.id, ← paramField node children)]) := by
  obtain ⟨before, text, place, rfl, plain, first⟩ := exists_value_leaf fits takes
  refine Decodes.map ?_ fun field => [(node.id, field)]
  simp only [paramField, first, Option.getD_some]
  cases decoded : node.decode text with
  | ok value =>
    refine .all _ fun leaf fault rejects => ?_
    obtain ⟨_, reason, refused, _⟩ := (rejects_param_iff present takes plain).1 rejects
    rw [decoded] at refused
    cases refused
  | error reason =>
    have last : model.Rejects
        (.branch node.id (before.map Tree.leaf ++ [.leaf ⟨.value, text, place⟩]))
        ⟨.value, text, place⟩ ⟨node.id, node.name, text, reason⟩ :=
      (rejects_param_iff present takes plain).2 ⟨rfl, reason, decoded, rfl⟩
    refine .first last ?_
    intro other later rejects
    obtain ⟨rfl, _, refused, rfl⟩ := (rejects_param_iff present takes plain).1 rejects
    rw [decoded] at refused
    cases refused
    exact .inl ⟨rfl, rfl⟩

/-- Under a switch no text is rejected. -/
theorem not_rejects_of_switch {triggers : List String} (kind : node.kind = .flag triggers false)
    (fits : node.Fits children) (member : tree ∈ children) :
    ¬ model.Rejects tree leaf fault := by
  intro rejects
  obtain ⟨trigger, _, place, rfl⟩ := eq_of_fits_switch kind fits
  cases List.mem_singleton.1 member
  cases rejects

mutual

/-- Resolving a branch of a parse tree decodes the texts in it from left to right. -/
theorem decodes_occurrence (made : ofSchema schema = .ok model) (defaults : Defaults) (tree : Tree)
    (admitted : (model.readGrammar mode).Admits tree) :
    Decodes tree.leaves (model.Rejects tree) (model.occurrence defaults tree) := by
  cases tree with
  | leaf leaf =>
    rw [occurrence]
    exact .all _ fun _ _ rejects => nomatch rejects
  | branch rule children =>
    obtain ⟨node, present, fits, inside⟩ := fits_of_admits made admitted
    obtain rfl := (stands_of_node? made present).id
    rw [occurrence, present, Tree.leaves]
    simp only
    cases kind : node.kind with
    | flag triggers takesValue =>
      cases takesValue with
      | false =>
        refine .all _ fun leaf fault rejects => ?_
        obtain ⟨tree, member, inner⟩ := (rejects_branch_iff present (by simp [kind])).1 rejects
        exact not_rejects_of_switch kind fits member inner
      | true => exact decodes_paramField present fits (.inr ⟨triggers, kind⟩)
    | positional => exact decodes_paramField present fits (.inl kind)
    | command | group =>
      have below := decodes_occurrences made defaults children inside
      exact (below.map fun inner =>
        [(node.id, Field.command (model.invocation defaults node inner))]).of_iff
          fun leaf fault => rejects_branch_iff present (by simp [kind])

/-- Resolving branches of parse trees decodes the texts in them from left to right. -/
theorem decodes_occurrences (made : ofSchema schema = .ok model) (defaults : Defaults)
    (trees : List Tree) (admitted : ∀ tree ∈ trees, (model.readGrammar mode).Admits tree) :
    Decodes (leavesOf trees) (model.RejectsAmong trees) (model.occurrences defaults trees) := by
  cases trees with
  | nil =>
    rw [occurrences]
    exact .all _ fun _ _ rejects => by simp [RejectsAmong] at rejects
  | cons tree rest =>
    obtain ⟨own, others⟩ := List.forall_mem_cons.1 admitted
    have head := decodes_occurrence made defaults tree own
    have tail := decodes_occurrences made defaults rest others
    rw [occurrences, leavesOf]
    exact (head.both tail (fun _ _ => Rejects.mem_leaves)
      (fun _ _ => RejectsAmong.mem_leavesOf) (· ++ ·)).of_iff
        fun leaf fault => by simp [RejectsAmong]

end

/-! ## Parses -/

/-- Resolving a parse decodes the texts in it from left to right. -/
theorem decodes_resolve (made : ofSchema schema = .ok model) (defaults : Defaults) {parse : Parse}
    (start : parse.rule = model.root.id) (admitted : (model.readGrammar mode).Admits parse.root) :
    Decodes parse.root.leaves (model.Rejects parse.root) (model.resolve defaults parse) := by
  obtain ⟨input, rule, children⟩ := parse
  obtain rfl : rule = model.root.id := start
  have known : model.node? model.root.id = some model.root := node?_id made List.mem_cons_self
  have command : model.root.isCommand = true := by
    simp [Node.isCommand, (root_of_ofSchema made).2]
  obtain ⟨_, _, _, inside⟩ := fits_of_admits made admitted
  have below := decodes_occurrences made defaults children inside
  simp only [resolve, known, Parse.root, Tree.leaves]
  refine (below.map (model.invocation defaults model.root)).of_iff fun leaf fault =>
    rejects_branch_iff known fun takes => ?_
  obtain kind | ⟨triggers, kind⟩ := takes <;> simp [Node.isCommand, Node.isParam, kind] at command

/-- The leaves of a parse are numbered from left to right. -/
theorem increasing_of_parseTokens (made : ofSchema schema = .ok model) {input : String}
    {tokens : List String} {parse : Parse}
    (parsed : model.parseTokens mode input tokens = .ok parse) :
    parse.root.leaves.Pairwise fun leaf other => leaf.index < other.index := by
  rw [parseTokens_eq] at parsed
  obtain ⟨children, rfl, _, leaves⟩ := Grammar.derivation_of_parseTokens
    (readGrammar_isClosed made mode) (readGrammar_isBounded model mode) parsed
  have places := congrArg (List.map Prod.snd) leaves
  rw [List.map_map, List.zipIdx_map_snd] at places
  have increasing : ((leavesOf children).map Leaf.index).Pairwise (· < ·) :=
    places ▸ List.pairwise_lt_range'
  exact List.pairwise_map.1 increasing

/-- Resolving a parse fails exactly if some text in it is rejected: the value of an option or of a
positional argument, at whatever depth, that the decoder of its parameter has no value for. Then
the fault is that of the first such text on the line. -/
theorem first_rejected_reported (made : ofSchema schema = .ok model) {input : String}
    {tokens : List String} {parse : Parse}
    (parsed : model.parseTokens mode input tokens = .ok parse) (defaults : Defaults) :
    ((∃ fault, model.resolve defaults parse = .error fault) ↔
      ∃ leaf fault, model.Rejects parse.root leaf fault) ∧
    ∀ fault, model.resolve defaults parse = .error fault →
      ∃ leaf own, fault = .undecodable own ∧ model.Rejects parse.root leaf own ∧
        ∀ other later, model.Rejects parse.root other later →
          (other = leaf ∧ later = own) ∨ leaf.index < other.index := by
  obtain ⟨start, admitted⟩ := admits_of_parseTokens made parsed
  have increasing := increasing_of_parseTokens made parsed
  have decodes := decodes_resolve made defaults start admitted
  generalize model.resolve defaults parse = result at decodes
  cases decodes with
  | all resolved none =>
    refine ⟨⟨fun failed => ?_, fun rejected => ?_⟩, fun fault failed => ?_⟩
    · obtain ⟨fault, failed⟩ := failed
      cases failed
    · obtain ⟨leaf, fault, rejects⟩ := rejected
      exact absurd rejects (none leaf fault)
    · cases failed
  | @first leaf own found least =>
    refine ⟨⟨fun _ => ⟨leaf, own, found⟩, fun _ => ⟨_, rfl⟩⟩, fun fault failed => ?_⟩
    cases failed
    refine ⟨leaf, own, rfl, found, fun other later rejects => ?_⟩
    refine (least other later rejects).imp_right fun inside => ?_
    have ordered := increasing.sublist inside
    simpa using ordered

/-- A group with an option and a command with two, numbers and a text. -/
def site : Command :=
  { name := "site"
    params := [{ Param.option ["--level"] with kind := .integer }]
    subcommands := [{
      name := "web"
      params := [{ Param.option ["--port"] with kind := .integer }, Param.option ["--host"]] }] }

/-- A line with two texts that are no numbers, neither of them in an occurrence that is kept. -/
def siteLine : List String :=
  ["site", "web", "--port", "low", "--port", "=", "80", "--level", "high", "--level", "7"]

/-- The first port is no number. -/
def lowPort : Undecodable := ⟨3, "port", "low", .integer .invalidDigit⟩

/-- Of this line the first port is reported, which the later one would replace. -/
theorem site_reports_first : ∃ model parse leaf, ofSchema site = .ok model ∧
    model.parseTokens .deferred "" siteLine = .ok parse ∧
    model.resolve .filled parse = .error (.undecodable lowPort) ∧
    model.Rejects parse.root leaf lowPort ∧
    ∀ other later, model.Rejects parse.root other later →
      (other = leaf ∧ later = lowPort) ∨ leaf.index < other.index := by
  let model : Model := ⟨.ofCommand 0 none site, Node.below 0 site⟩
  have made : ofSchema site = .ok model := rfl
  have facts : (model.parseTokens .deferred "" siteLine).toOption.map (fun parse =>
      (model.resolve .filled parse).map fun _ => ()) =
        some (.error (.undecodable lowPort)) := by
    decide +kernel
  cases parsed : model.parseTokens .deferred "" siteLine with
  | error fault =>
    rw [parsed] at facts
    cases facts
  | ok parse =>
    rw [parsed] at facts
    simp only [Except.toOption, Option.map_some, Option.some.injEq] at facts
    cases failed : model.resolve .filled parse with
    | ok resolved =>
      rw [failed] at facts
      cases facts
    | error fault =>
      rw [failed] at facts
      cases facts
      obtain ⟨leaf, own, same, found, least⟩ :=
        (first_rejected_reported made parsed .filled).2 _ failed
      obtain rfl := ResolveFault.undecodable.inj same
      exact ⟨model, parse, leaf, made, parsed, failed, found, least⟩

end Model

end CommandGrammar
