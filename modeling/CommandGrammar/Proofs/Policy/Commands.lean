import Mathlib
import CommandGrammar.Proofs.Model.Productions
import CommandGrammar.Proofs.Modes

/-!
# The policy at commands

What tokens mean is settled node by node. A parameter is its trigger and its value. A command is
its name and its items, which are chosen from left to right: each one takes the longest span that
some declared alternative derives and after which the rest divides into as many items as are
still due, and it goes to the first alternative that derives the span. This names the trees that
are picked for the production of a node, so no two of them are chosen for the same tokens, and
the tree of a parse is the one that is chosen.
-/

namespace CommandGrammar

/-- The tokens divide into items, each derived by one of the nodes, and the number of the items is
within bounds. -/
def Grammar.Divides (grammar : Grammar) (nodes : List NodeId) (least : Nat) (most : Option Nat)
    (word : List String) : Prop :=
  ∃ parts : List (List String), word = parts.flatten ∧ least ≤ parts.length ∧
    (∀ bound ∈ most, parts.length ≤ bound) ∧
      ∀ part ∈ parts, ∃ id ∈ nodes, grammar.Derives (.rule id) part

/-- What trees are chosen for. -/
inductive Portion where
  /-- A node. -/
  | node (id : NodeId)
  /-- Items of a command, each for one of the nodes, their number being within bounds. -/
  | items (nodes : List NodeId) (least : Nat) (most : Option Nat)

/-- What a portion is in the grammar. -/
def Portion.expr : Portion → Expr
  | .node id => .rule id
  | .items nodes least most => .repetition (Expr.choice (nodes.map .rule)) least most

/-- What an item of a command may be, the preferred nodes first. -/
def Node.alternatives (node : Node) : List NodeId := node.subcommands ++ node.params

namespace Model

/-- The bounds of the number of items of a command. With subcommands there is at least one item;
without, the counts of the parameters set the bounds, if all of them are fixed. These are taken as
they are read, since a sum that wraps around may leave the greatest number below the least one. -/
def itemBounds (model : Model) (mode : RequiredParams) (command : Node) : Nat × Option Nat :=
  match command.kind with
  | .group .. => (1, none)
  | .command _ | .flag .. | .positional => model.readBounds mode command

/-- The trees that are chosen for a portion between two places. -/
inductive Chooses (model : Model) (mode : RequiredParams) (tokens : List String) :
    Portion → Nat → Nat → List Tree → Prop where
  /-- A switch is one of its triggers. -/
  | switch {id : NodeId} {node : Node} {triggers : List String} {trigger : String} {start : Nat}
      (found : model.node? id = some node) (kind : node.kind = .flag triggers false)
      (known : trigger ∈ triggers) (first : tokens[start]? = some trigger) :
      Chooses model mode tokens (.node id) start (start + 1)
        [.branch id [.leaf ⟨.literal, trigger, start⟩]]
  /-- An option of two tokens is one of its triggers and a value. -/
  | spaced {id : NodeId} {node : Node} {triggers : List String} {trigger text : String}
      {start : Nat} (found : model.node? id = some node) (kind : node.kind = .flag triggers true)
      (known : trigger ∈ triggers) (first : tokens[start]? = some trigger)
      (second : tokens[start + 1]? = some text) :
      Chooses model mode tokens (.node id) start (start + 2)
        [.branch id [.leaf ⟨.literal, trigger, start⟩, .leaf ⟨.value, text, start + 1⟩]]
  /-- An option of three tokens has an equals sign between the trigger and the value. -/
  | joined {id : NodeId} {node : Node} {triggers : List String} {trigger text : String}
      {start : Nat} (found : model.node? id = some node) (kind : node.kind = .flag triggers true)
      (known : trigger ∈ triggers) (first : tokens[start]? = some trigger)
      (second : tokens[start + 1]? = some "=") (third : tokens[start + 2]? = some text) :
      Chooses model mode tokens (.node id) start (start + 3)
        [.branch id [.leaf ⟨.literal, trigger, start⟩, .leaf ⟨.literal, "=", start + 1⟩,
          .leaf ⟨.value, text, start + 2⟩]]
  /-- A positional argument is a value. -/
  | positional {id : NodeId} {node : Node} {text : String} {start : Nat}
      (found : model.node? id = some node) (kind : node.kind = .positional)
      (first : tokens[start]? = some text) :
      Chooses model mode tokens (.node id) start (start + 1)
        [.branch id [.leaf ⟨.value, text, start⟩]]
  /-- A command is its name and its items. -/
  | command {id : NodeId} {node : Node} {start stop : Nat} {trees : List Tree}
      (found : model.node? id = some node) (command : node.isCommand = true)
      (name : tokens[start]? = some node.name)
      (items : Chooses model mode tokens (.items node.alternatives (model.itemBounds mode node).1
        (model.itemBounds mode node).2) (start + 1) stop trees) :
      Chooses model mode tokens (.node id) start stop
        [.branch id (.leaf ⟨.literal, node.name, start⟩ :: trees)]
  /-- The items end at the end, if no more are due. -/
  | done (nodes : List NodeId) (most : Option Nat) (place : Nat) :
      Chooses model mode tokens (.items nodes 0 most) place place []
  /-- An item takes the longest span that leaves a rest that divides into further items, and belongs
  to the first alternative that derives the span. -/
  | item {earlier later : List NodeId} {id : NodeId} {least : Nat} {most : Option Nat}
      {start split stop : Nat} {first others : List Tree} (more : most ≠ some 0)
      (passed : ∀ other ∈ earlier,
        ¬ Between tokens ((model.readGrammar mode).Derives (.rule other)) start split)
      (own : Chooses model mode tokens (.node id) start split first)
      (rest : Chooses model mode tokens (.items (earlier ++ id :: later) (least - 1)
        (most.map (· - 1))) split stop others)
      (longest : ∀ further, split < further →
        ¬ ((∃ other ∈ earlier ++ id :: later,
              Between tokens ((model.readGrammar mode).Derives (.rule other)) start further) ∧
            Between tokens ((model.readGrammar mode).Divides (earlier ++ id :: later) (least - 1)
              (most.map (· - 1))) further stop)) :
      Chooses model mode tokens (.items (earlier ++ id :: later) least most) start stop
        (first ++ others)

end Model

/-! ## Choices -/

namespace Grammar

variable {grammar : Grammar} {tokens : List String} {start stop : Nat} {trees : List Tree}

/-- A choice derives what one of its items does. -/
theorem spans_choice_iff {items : List Expr} :
    grammar.Spans tokens (Expr.choice items) start stop ↔
      ∃ item ∈ items, grammar.Spans tokens item start stop := by
  unfold Expr.choice
  split
  · simp
  · exact spans_alt_iff

/-- For a choice with one item that is picked for the tokens between two places, what is picked for
the first item that derives them is picked. -/
theorem Picks.ofChoice {earlier later : List Expr} {item : Expr}
    (passed : ∀ other ∈ earlier, ¬ grammar.Spans tokens other start stop)
    (chosen : grammar.Picks tokens item start stop trees) :
    grammar.Picks tokens (Expr.choice (earlier ++ item :: later)) start stop trees := by
  have alt : grammar.Picks tokens (.alt (earlier ++ item :: later)) start stop trees := by
    induction earlier with
    | nil => exact .altFirst chosen
    | cons other rest ih =>
      have first := passed other List.mem_cons_self
      exact .altLater first (ih fun next member => passed next (List.mem_cons_of_mem _ member))
  unfold Expr.choice
  split
  · next only same =>
    -- With one item in all there is no earlier one, and the item is picked itself.
    have lengths := congrArg List.length same
    rw [List.length_append, List.length_cons, List.length_singleton] at lengths
    have none : earlier = [] := List.length_eq_zero_iff.1 (by omega)
    rw [none, List.nil_append] at same
    have item_eq : item = only := (List.cons.inj same).1
    exact item_eq ▸ chosen
  · exact alt

/-- What is picked for a choice is picked for the first item that derives the tokens. -/
theorem Picks.choice {items : List Expr}
    (picks : grammar.Picks tokens (Expr.choice items) start stop trees) :
    ∃ earlier item later, items = earlier ++ item :: later ∧
      (∀ other ∈ earlier, ¬ grammar.Spans tokens other start stop) ∧
      grammar.Picks tokens item start stop trees := by
  have alt {items : List Expr} (inner : grammar.Picks tokens (.alt items) start stop trees) :
      ∃ earlier item later, items = earlier ++ item :: later ∧
        (∀ other ∈ earlier, ¬ grammar.Spans tokens other start stop) ∧
        grammar.Picks tokens item start stop trees := by
    induction items with
    | nil => cases inner
    | cons first rest ih =>
      cases inner with
      | altFirst chosen => exact ⟨[], first, rest, rfl, by simp, chosen⟩
      | altLater passed chosen =>
        obtain ⟨earlier, item, later, same, others, own⟩ := ih chosen
        refine ⟨first :: earlier, item, later, by rw [same]; rfl, ?_, own⟩
        exact List.forall_mem_cons.2 ⟨passed, others⟩
  unfold Expr.choice at picks
  split at picks
  · next only => exact ⟨[], only, [], rfl, by simp, picks⟩
  · exact alt picks

/-- What is picked for the only item of a choice that derives the tokens is picked for the
choice. -/
theorem Picks.ofOnly {items : List Expr} {item : Expr} (member : item ∈ items)
    (chosen : grammar.Picks tokens item start stop trees)
    (only : ∀ other ∈ items, grammar.Spans tokens other start stop → other = item) :
    grammar.Picks tokens (Expr.choice items) start stop trees := by
  classical
  obtain ⟨earlier, later, same, absent⟩ := List.eq_append_cons_of_mem member
  subst same
  refine .ofChoice (fun other listed spans => absent ?_) chosen
  exact only other (List.mem_append_left _ listed) spans ▸ listed

/-- Items are what a repetition of a choice of their nodes derives. -/
theorem divides_iff_derives {nodes : List NodeId} {least : Nat} {most : Option Nat}
    {word : List String} : grammar.Divides nodes least most word ↔
      grammar.Derives (.repetition (Expr.choice (nodes.map .rule)) least most) word := by
  have item (part : List String) : grammar.Derives (Expr.choice (nodes.map .rule)) part ↔
      ∃ id ∈ nodes, grammar.Derives (.rule id) part := by
    rw [derives_choice_iff]
    simp
  rw [derives_repetition_iff, Divides]
  simp only [item]

/-- A span is the longest one of an item exactly if it is the longest one for the repetition of the
choice of nodes. -/
theorem isLongest_items_iff {nodes : List NodeId} {least : Nat} {most : Option Nat} {split : Nat} :
    grammar.IsLongest tokens (Expr.choice (nodes.map .rule))
        (.repetition (Expr.choice (nodes.map .rule)) least most) start split stop ↔
      ∀ further, split < further →
        ¬ ((∃ other ∈ nodes, Between tokens (grammar.Derives (.rule other)) start further) ∧
          Between tokens (grammar.Divides nodes least most) further stop) := by
  have rest (further : Nat) : Between tokens (grammar.Divides nodes least most) further stop ↔
      grammar.Spans tokens (.repetition (Expr.choice (nodes.map .rule)) least most) further stop :=
    between_congr fun _ => divides_iff_derives
  have item (further : Nat) : grammar.Spans tokens (Expr.choice (nodes.map .rule)) start further ↔
      ∃ other ∈ nodes, Between tokens (grammar.Derives (.rule other)) start further := by
    rw [spans_choice_iff]
    simp [Spans]
  simp only [IsLongest, rest, item]

end Grammar

namespace Model

variable {schema : Command} {model : Model} {mode : RequiredParams} {tokens : List String}
  {start stop : Nat} {trees : List Tree}

/-! ## Chosen trees are picked -/

/-- A trigger of a switch is picked. -/
theorem picks_switch {grammar : Grammar} {triggers : List String} {trigger : String}
    (known : trigger ∈ triggers) (first : tokens[start]? = some trigger) :
    grammar.Picks tokens (flagExpr triggers false) start (start + 1)
      [.leaf ⟨.literal, trigger, start⟩] := by
  refine .ofOnly (List.mem_map_of_mem known) (.literal first) fun other member spans => ?_
  obtain ⟨another, _, rfl⟩ := List.mem_map.1 member
  have begins := (Grammar.spans_literal_iff.1 spans).2
  rw [first, Option.some.injEq] at begins
  rw [begins]

/-- What begins with a literal begins with its token. -/
theorem trigger_of_spans {grammar : Grammar} {trigger : String} {rest : List Expr}
    (spans : grammar.Spans tokens (.seq (.literal trigger :: rest)) start stop) :
    tokens[start]? = some trigger := by
  obtain ⟨split, head, _⟩ := Grammar.spans_seq_cons_iff.1 spans
  exact (Grammar.spans_literal_iff.1 head).2

/-- What is picked after the trigger of an option is picked with it. -/
theorem picks_option {grammar : Grammar} {triggers : List String} {trigger : String}
    (known : trigger ∈ triggers) (first : tokens[start]? = some trigger)
    (rest : grammar.Picks tokens (.seq [.optional (.literal "="), .value]) (start + 1) stop trees) :
    grammar.Picks tokens (flagExpr triggers true) start stop
      (.leaf ⟨.literal, trigger, start⟩ :: trees) := by
  have own : grammar.Picks tokens (.seq [.literal trigger, .optional (.literal "="), .value]) start
      stop (.leaf ⟨.literal, trigger, start⟩ :: trees) := by
    refine .seqCons (.literal first) rest fun later above both => ?_
    have one := (Grammar.spans_literal_iff.1 both.1).1
    omega
  refine .ofOnly (List.mem_map_of_mem known) own fun other member spans => ?_
  obtain ⟨another, _, rfl⟩ := List.mem_map.1 member
  have begins := trigger_of_spans spans
  rw [first, Option.some.injEq] at begins
  rw [begins]

/-- The value at the end of an option takes one token. -/
theorem stop_of_value {grammar : Grammar}
    (spans : grammar.Spans tokens (.seq [.value]) start stop) : stop = start + 1 := by
  obtain ⟨split, value, nothing⟩ := Grammar.spans_seq_cons_iff.1 spans
  have one := (Grammar.spans_value_iff.1 value).1
  have last := (Grammar.spans_seq_nil_iff value.le_length).1 nothing
  omega

/-- The value at the end of an option is picked. -/
theorem picks_value {grammar : Grammar} {text : String} (found : tokens[start]? = some text) :
    grammar.Picks tokens (.seq [.value]) start (start + 1) [.leaf ⟨.value, text, start⟩] := by
  refine .seqCons (.value found) (.seqNil _) fun later above both => ?_
  have one := (Grammar.spans_value_iff.1 both.1).1
  omega

/-- One token after a trigger is the value, without an equals sign before it. -/
theorem picks_spaced {grammar : Grammar} {text : String} (found : tokens[start]? = some text) :
    grammar.Picks tokens (.seq [.optional (.literal "="), .value]) start (start + 1)
      [.leaf ⟨.value, text, start⟩] := by
  have without : grammar.Picks tokens (.optional (.literal "=")) start start [] := by
    refine .absent fun spans => ?_
    have one := (Grammar.spans_literal_iff.1 spans).1
    omega
  refine .seqCons without (picks_value found) fun later above both => ?_
  have last := stop_of_value both.2
  omega

/-- Two tokens after a trigger are an equals sign and the value. -/
theorem picks_joined {grammar : Grammar} {text : String} (sign : tokens[start]? = some "=")
    (found : tokens[start + 1]? = some text) :
    grammar.Picks tokens (.seq [.optional (.literal "="), .value]) start (start + 2)
      [.leaf ⟨.literal, "=", start⟩, .leaf ⟨.value, text, start + 1⟩] := by
  refine .seqCons (.present (.literal sign)) (picks_value found) fun later above both => ?_
  have last := stop_of_value both.2
  omega

/-- A command is its name and a repetition of its alternatives, or its name if it has none. -/
theorem readExpr_command {node : Node} (command : node.isCommand = true) :
    model.readExpr mode node = .seq [.literal node.name,
        .repetition (Expr.choice (node.alternatives.map .rule)) (model.itemBounds mode node).1
          (model.itemBounds mode node).2] ∨
      model.readExpr mode node = .literal node.name ∧ node.alternatives = [] ∧
        model.itemBounds mode node = (0, some 0) := by
  unfold readExpr nodeExpr itemBounds Node.alternatives
  cases kind : node.kind with
  | flag | positional => simp [Node.isCommand, Node.isParam, kind] at command
  | group => exact .inl rfl
  | command params =>
    have alone : node.subcommands = [] := by simp [Node.subcommands, kind]
    simp only [alone, List.nil_append, commandExpr]
    by_cases none_declared : node.params.isEmpty = true
    · rw [if_pos none_declared]
      exact .inr ⟨rfl, List.isEmpty_iff.1 none_declared, readBounds_of_isEmpty none_declared⟩
    · rw [if_neg none_declared]
      exact .inl rfl

/-- The name of a command and what is picked for its items are picked for the command. -/
theorem picks_command {grammar : Grammar} {node : Node} (command : node.isCommand = true)
    (name : tokens[start]? = some node.name)
    (items : grammar.Picks tokens (.repetition (Expr.choice (node.alternatives.map .rule))
      (model.itemBounds mode node).1 (model.itemBounds mode node).2) (start + 1) stop trees) :
    grammar.Picks tokens (model.readExpr mode node) start stop
      (.leaf ⟨.literal, node.name, start⟩ :: trees) := by
  rcases @readExpr_command model mode _ command with same | ⟨same, _, bounds⟩
  · rw [same]
    exact .ofNamed (.literal name) items
  · rw [bounds] at items
    rw [same]
    cases items with
    | repetitionEnd => exact .literal name
    | repetitionItem more => exact absurd rfl more

/-- What is chosen for a portion is picked for its expression. -/
theorem Chooses.picks (made : ofSchema schema = .ok model) {portion : Portion}
    (chooses : model.Chooses mode tokens portion start stop trees)
    (inside : start ≤ tokens.length) :
    (model.readGrammar mode).Picks tokens portion.expr start stop trees := by
  induction chooses with
  | switch found kind known first =>
    refine .rule (production?_readGrammar made mode found) ?_
    rw [readExpr, nodeExpr, kind]
    exact picks_switch known first
  | spaced found kind known first second =>
    refine .rule (production?_readGrammar made mode found) ?_
    rw [readExpr, nodeExpr, kind]
    exact picks_option known first (picks_spaced second)
  | joined found kind known first second third =>
    refine .rule (production?_readGrammar made mode found) ?_
    rw [readExpr, nodeExpr, kind]
    exact picks_option known first (picks_joined second third)
  | positional found kind first =>
    refine .rule (production?_readGrammar made mode found) ?_
    rw [readExpr, nodeExpr, kind]
    exact .value first
  | command found command name _ ih =>
    have below := (List.getElem?_eq_some_iff.1 name).1
    exact .rule (production?_readGrammar made mode found) (picks_command command name (ih below))
  | done nodes most place => exact .repetitionEnd _ _ _
  | @item earlier later id least most start split stop first others more passed _ _ longest ownIH
      restIH =>
    have own := ownIH inside
    have spans := own.spans inside
    have below : start < split :=
      Reading.isSolid_rule (readGrammar_isHeaded model mode) id _ _ spans
    have head : (model.readGrammar mode).Picks tokens
        (Expr.choice ((earlier ++ id :: later).map .rule)) start split first := by
      rw [List.map_append, List.map_cons]
      refine .ofChoice (fun other member => ?_) own
      obtain ⟨another, listed, rfl⟩ := List.mem_map.1 member
      exact passed another listed
    exact .repetitionItem more below head (restIH spans.le_length)
      (Grammar.isLongest_items_iff.2 longest)

/-! ## Picked trees are chosen -/

/-- What is picked for an option is one of its triggers with its value. -/
theorem chooses_option {id : NodeId} {node : Node} {triggers : List String} {grammar : Grammar}
    (found : model.node? id = some node) (kind : node.kind = .flag triggers true)
    (picks : grammar.Picks tokens (flagExpr triggers true) start stop trees) :
    model.Chooses mode tokens (.node id) start stop [.branch id trees] := by
  obtain ⟨earlier, item, later, same, _, own⟩ := picks.choice
  have member : item ∈ earlier ++ item :: later := by simp
  rw [← same] at member
  obtain ⟨trigger, known, rfl⟩ := List.mem_map.1 member
  rw [if_pos rfl] at own
  cases own with
  | seqCons head tail _ =>
    cases head with
    | literal first =>
      cases tail with
      | seqCons between tail _ =>
        cases tail with
        | seqCons last done _ =>
          cases last with
          | value text =>
            cases done
            cases between with
            | absent => exact .spaced found kind known first text
            | present sign =>
              cases sign with
              | literal second => exact .joined found kind known first second text

/-- What is picked for a switch is one of its triggers. -/
theorem chooses_switch {id : NodeId} {node : Node} {triggers : List String} {grammar : Grammar}
    (found : model.node? id = some node) (kind : node.kind = .flag triggers false)
    (picks : grammar.Picks tokens (flagExpr triggers false) start stop trees) :
    model.Chooses mode tokens (.node id) start stop [.branch id trees] := by
  obtain ⟨earlier, item, later, same, _, own⟩ := picks.choice
  have member : item ∈ earlier ++ item :: later := by simp
  rw [← same] at member
  obtain ⟨trigger, known, rfl⟩ := List.mem_map.1 member
  cases own with
  | literal first => exact .switch found kind known first

/-- What is picked for items is chosen for them, if that holds of nodes between places that are
closer. -/
theorem chooses_items {width least : Nat} {nodes : List NodeId} {most : Option Nat}
    (narrower : ∀ id first last children, last - first < width →
      (model.readGrammar mode).Picks tokens (.rule id) first last children →
      model.Chooses mode tokens (.node id) first last children)
    (picks : (model.readGrammar mode).Picks tokens
      (.repetition (Expr.choice (nodes.map .rule)) least most) start stop trees)
    (close : stop - start < width) :
    model.Chooses mode tokens (.items nodes least most) start stop trees := by
  generalize same : Expr.repetition (Expr.choice (nodes.map .rule)) least most = expr at picks
  induction picks generalizing least most with
  | repetitionEnd =>
    cases same
    exact .done _ _ _
  | @repetitionItem inner low high first split last _ _ more below head tail longest _ ih =>
    obtain ⟨rfl, rfl, rfl⟩ : Expr.choice (nodes.map .rule) = inner ∧ least = low ∧ most = high := by
      simpa using same
    have after := tail.le
    have rest := ih (by omega) rfl
    obtain ⟨before, item, following, listed, passed, own⟩ := head.choice
    obtain ⟨earlier, others, rfl, rfl, split⟩ := List.map_eq_append_iff.1 listed
    obtain ⟨id, later, rfl, rfl, rfl⟩ := List.map_eq_cons_iff.1 split
    have chosen := narrower id _ _ _ (by omega) own
    refine .item more (fun other member => ?_) chosen rest (Grammar.isLongest_items_iff.1 longest)
    exact passed (.rule other) (List.mem_map_of_mem member)
  | _ => cases same

/-- What is picked for a command is its name and what is picked for its items. -/
theorem picks_of_command {grammar : Grammar} {node : Node} (command : node.isCommand = true)
    (picks : grammar.Picks tokens (model.readExpr mode node) start stop trees) :
    ∃ others, trees = .leaf ⟨.literal, node.name, start⟩ :: others ∧
      tokens[start]? = some node.name ∧
      grammar.Picks tokens (.repetition (Expr.choice (node.alternatives.map .rule))
        (model.itemBounds mode node).1 (model.itemBounds mode node).2) (start + 1) stop others := by
  rcases @readExpr_command model mode _ command with same | ⟨same, _, bounds⟩
  · rw [same] at picks
    obtain ⟨leaf, others, rfl, word, items⟩ := picks.named
    cases word with
    | literal found => exact ⟨others, rfl, found, items⟩
  · rw [same] at picks
    cases picks with
    | literal found =>
      rw [bounds]
      exact ⟨[], rfl, found, .repetitionEnd _ _ _⟩

/-- What is picked for a node is chosen for it. -/
theorem chooses_node (made : ofSchema schema = .ok model) {id : NodeId}
    (picks : (model.readGrammar mode).Picks tokens (.rule id) start stop trees) :
    model.Chooses mode tokens (.node id) start stop trees := by
  -- The items of a command stand between places that are closer, since its name comes first.
  generalize width : stop - start = distance
  induction distance using Nat.strong_induction_on generalizing id start stop trees with
  | _ distance ih =>
    cases picks with
    | rule has body =>
      obtain ⟨node, found, rfl⟩ := node?_of_read made has
      cases command : node.isCommand with
      | true =>
        obtain ⟨others, rfl, name, items⟩ := picks_of_command command body
        have after := items.le
        have below : stop - (start + 1) < distance := by omega
        refine .command found command name (chooses_items ?_ items below)
        intro other first last children closer inner
        exact ih _ closer inner rfl
      | false =>
        unfold readExpr nodeExpr at body
        cases kind : node.kind with
        | flag triggers takesValue =>
          rw [kind] at body
          cases takesValue with
          | true => exact chooses_option found kind body
          | false => exact chooses_switch found kind body
        | positional =>
          rw [kind] at body
          cases body with
          | value first => exact .positional found kind first
        | command | group => simp [Node.isCommand, Node.isParam, kind] at command

/-! ## What is chosen for a node -/

/-- What is chosen for a command is its name and what is chosen for its items. -/
theorem Chooses.of_command {id : NodeId} {node : Node} (found : model.node? id = some node)
    (command : node.isCommand = true)
    (chooses : model.Chooses mode tokens (.node id) start stop trees) :
    ∃ others, trees = [.branch id (.leaf ⟨.literal, node.name, start⟩ :: others)] ∧
      model.Chooses mode tokens (.items node.alternatives (model.itemBounds mode node).1
        (model.itemBounds mode node).2) (start + 1) stop others := by
  cases chooses with
  | command same _ _ items =>
    rw [found] at same
    cases same
    exact ⟨_, rfl, items⟩
  | switch same kind | spaced same kind | joined same kind | positional same kind =>
    rw [found] at same
    cases same
    simp [Node.isCommand, Node.isParam, kind] at command

/-- What is chosen for a positional argument is one value. -/
theorem Chooses.of_positional {id : NodeId} {node : Node} (found : model.node? id = some node)
    (kind : node.kind = .positional)
    (chooses : model.Chooses mode tokens (.node id) start stop trees) :
    ∃ text, tokens[start]? = some text ∧ stop = start + 1 ∧
      trees = [.branch id [.leaf ⟨.value, text, start⟩]] := by
  cases chooses with
  | positional _ _ first => exact ⟨_, first, rfl, rfl⟩
  | switch same other | spaced same other | joined same other =>
    rw [found] at same
    cases same
    rw [kind] at other
    cases other
  | command same command =>
    rw [found] at same
    cases same
    simp [Node.isCommand, Node.isParam, kind] at command

/-- A group with an option that one of its subcommands has as well. -/
def kennel : Command :=
  { name := "top"
    params := [{ Param.option ["--name"] with multiple := true }]
    subcommands := [
      { name := "dog", params := [{ Param.option ["--name"] with multiple := true }] },
      { name := "cat" }] }

end Model

end CommandGrammar
