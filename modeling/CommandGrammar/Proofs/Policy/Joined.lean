import Mathlib
import CommandGrammar.Proofs.Line.Tokens
import CommandGrammar.Proofs.Options.Triggers
import CommandGrammar.Proofs.Policy.Roles

/-!
# Joined words in the tree

A word that joins a trigger and a value is three tokens, and the grammar does not know that they
were one word. They are one option in the tree exactly if the first of them begins an item of a
command that declares such an option and what follows the three divides into as many further items
as the command still may or must have. Otherwise the value begins an item of its own. The bounds are
those that the grammar is read with, so this holds even where a sum of counts wraps around.
-/

namespace CommandGrammar

namespace Model

/-- The three tokens from a place on are an option in the tree: its trigger, the equals sign and
its value. -/
def HasJoined (model : Model) (parse : Parse) (place : Nat) (flag value : String) : Prop :=
  ∃ node ∈ model.nodes, ∃ triggers, node.kind = .flag triggers true ∧ flag ∈ triggers ∧
    parse.root.StandsIn (.branch node.id [.leaf ⟨.literal, flag, place⟩,
      .leaf ⟨.literal, "=", place + 1⟩, .leaf ⟨.value, value, place + 2⟩])

/-- In the tree a command has an item that begins at a place, it declares an option with the
trigger, and what follows three tokens from there divides into items within the bounds that are
left by the items before and this one. -/
inductive LetsJoin (model : Model) (mode : RequiredParams) (parse : Parse) (place : Nat)
    (flag value : String) : Prop where
  /-- The command with its items before and from the place on. -/
  | intro {command option : Node} {triggers : List String} {start : Nat} {before items : List Tree}
      {rest : List String} (known : model.node? command.id = some command)
      (isCommand : command.isCommand = true)
      (stands : parse.root.StandsIn (.branch command.id
        (.leaf ⟨.literal, command.name, start⟩ :: (before ++ items))))
      (begins : (leavesOf items).head?.map Leaf.index = some place)
      (declared : option ∈ model.nodesOf command.declared)
      (kind : option.kind = .flag triggers true) (trigger : flag ∈ triggers)
      (spelled : tokensOf items = flag :: "=" :: value :: rest)
      (divides : (model.readGrammar mode).Divides command.alternatives
        ((model.itemBounds mode command).1 - (before.length + 1))
        ((model.itemBounds mode command).2.map (· - (before.length + 1))) rest) :
      LetsJoin model mode parse place flag value

/-- A token begins a branch of the tree, as a positional argument, a trigger or a command's name. -/
def BeginsBranch (model : Model) (parse : Parse) (place : Nat) (text : String) : Prop :=
  ∃ node ∈ model.nodes, (node.kind = .positional ∨ text ∈ node.words) ∧
    ∃ kind children, parse.root.StandsIn (.branch node.id (.leaf ⟨kind, text, place⟩ :: children))

variable {schema : Command} {model : Model} {mode : RequiredParams} {parse : Parse}
  {input : String} {tokens : List String} {place : Nat} {flag value : String}

/-- A node that an item of a command may be of is declared by the command. -/
theorem declared_of_alternatives {command node : Node} {id : NodeId}
    (found : model.node? id = some node) (listed : id ∈ command.alternatives) :
    node ∈ model.nodesOf command.declared :=
  List.mem_filterMap.2 ⟨id, mem_alternatives_iff.1 listed, found⟩

/-- The tree of a parse is chosen for the root and all tokens. -/
theorem chooses_root (made : ofSchema schema = .ok model)
    (parsed : model.parseTokens mode input tokens = .ok parse) :
    model.Chooses mode tokens (.node parse.rule) 0 tokens.length [parse.root] := by
  have start := (admits_of_parseTokens made parsed).1
  obtain rfl := input_of_parseTokens made parsed
  rw [start]
  exact chooses_node made ((parseTokens_iff_picks made).1 parsed)

/-- The items of a command in the tree, from some item on, are chosen within the bounds that are
left. -/
theorem chooses_items_of_standsIn (made : ofSchema schema = .ok model)
    (parsed : model.parseTokens mode input tokens = .ok parse) {command : Node}
    (known : model.node? command.id = some command) (isCommand : command.isCommand = true)
    {name : Leaf} {before items : List Tree}
    (stands : parse.root.StandsIn (.branch command.id (.leaf name :: (before ++ items)))) :
    ∃ place stop, place ≤ tokens.length ∧ model.Chooses mode tokens
      (.items command.alternatives ((model.itemBounds mode command).1 - before.length)
        ((model.itemBounds mode command).2.map (· - before.length))) place stop items := by
  obtain ⟨first, last, inside, chosen⟩ :=
    (chooses_root made parsed).of_standsIn (Nat.zero_le _) stands _ _ rfl
  obtain ⟨others, same, chosenItems⟩ := chosen.of_command known isCommand
  obtain ⟨_, rfl⟩ : name = ⟨.literal, command.name, first⟩ ∧ before ++ items = others := by
    simpa using same
  have named := chosen.between inside
  rw [show tokensOf [Tree.branch command.id (.leaf name :: (before ++ items))] =
    name.text :: tokensOf (before ++ items) by simp [tokensOf, leavesOf, Tree.leaves],
    between_cons_iff] at named
  obtain ⟨place, below, chosen⟩ := chosenItems.after (List.getElem?_eq_some_iff.1 named.1).1
  exact ⟨place, last, below, chosen⟩

/-- What an option of the joined form derives. -/
theorem derives_joined (made : ofSchema schema = .ok model) {option : Node} {triggers : List String}
    (known : model.node? option.id = some option) (kind : option.kind = .flag triggers true)
    (trigger : flag ∈ triggers) :
    (model.readGrammar mode).Derives (.rule option.id) [flag, "=", value] := by
  have body : (model.readGrammar mode).Derives (flagExpr triggers true) [flag, "=", value] :=
    @derives_flagExpr _ triggers ⟨flag, true, value⟩ trigger
  refine .rule (production?_readGrammar made mode known) ?_
  rw [readExpr, nodeExpr, kind]
  exact body

/-- Where a command lets three tokens be joined, they are an option of its in the tree: the option
takes a longer span than any other alternative that begins with its trigger. -/
theorem hasJoined_of_letsJoin (made : ofSchema schema = .ok model)
    (parsed : model.parseTokens mode input tokens = .ok parse)
    (lets : model.LetsJoin mode parse place flag value) :
    model.HasJoined parse place flag value := by
  cases lets with
  | @intro command option triggers start before items rest known isCommand stands begins declared
      kind trigger spelled divides =>
    obtain ⟨first, stop, inside, chosen⟩ :=
      chooses_items_of_standsIn made parsed known isCommand stands
    have between := chosen.between inside
    rw [spelled] at between
    obtain ⟨here, sign, last, after⟩ : tokens[first]? = some flag ∧ tokens[first + 1]? = some "=" ∧
        tokens[first + 2]? = some value ∧ Between tokens (· = rest) (first + 3) stop := by
      rw [between_cons_iff, between_cons_iff, between_cons_iff] at between
      exact between
    cases items with
    | nil => cases spelled
    | cons item others =>
      obtain ⟨id, listed, split, own, _, longest⟩ := chosen.first
      have optionKnown := (node?_of_declared made declared).1
      have number : option.id ∈ command.alternatives :=
        mem_alternatives_iff.2 (node?_of_declared made declared).2
      have long : first + 3 ≤ split := by
        refine longest (first + 3) option.id number ?_ ?_
        · have three : Between tokens (· = [flag, "=", value]) first (first + 3) :=
            between_cons_iff.2 ⟨here, between_cons_iff.2
              ⟨sign, between_singleton_iff.2 ⟨rfl, last⟩⟩⟩
          exact three.of_eq (derives_joined made optionKnown kind trigger)
        · refine after.of_eq ?_
          simpa only [Nat.sub_sub, Option.map_map, Function.comp_def] using divides
      have index : first = place := by
        obtain ⟨leaf, more, leaves, index⟩ := own.begins
        have parts := leavesOf_append [item] others
        rw [List.singleton_append] at parts
        rw [parts, leaves] at begins
        exact index.symm.trans (Option.some.inj begins)
      subst index
      have below : parse.root.StandsIn item := .child stands (by simp)
      cases own with
      | switch | spaced | positional => omega
      | @joined _ node _ trigger text _ found isFlag known first second third =>
        obtain rfl : flag = trigger := Option.some.inj (here.symm.trans first)
        obtain rfl : value = text := Option.some.inj (last.symm.trans third)
        obtain rfl := (stands_of_node? made found).id
        exact ⟨node, List.mem_of_getElem? found, _, isFlag, known, below⟩
      | @command _ node _ _ _ found isCommand name =>
        -- A subcommand of that name would be spelled like the trigger beside it.
        have beside := declared_of_alternatives found listed
        have same : node.name = flag := Option.some.inj (name.symm.trans here)
        exact absurd same (name_ne_trigger made known declared kind beside isCommand trigger)

/-- Three tokens that are an option in the tree are an item of a command that lets them be
joined. -/
theorem letsJoin_of_hasJoined (made : ofSchema schema = .ok model)
    (parsed : model.parseTokens mode input tokens = .ok parse)
    (joined : model.HasJoined parse place flag value) :
    model.LetsJoin mode parse place flag value := by
  obtain ⟨option, member, triggers, kind, trigger, stands⟩ := joined
  have known := node?_id made member
  generalize branch : Tree.branch option.id _ = tree at stands
  cases stands with
  | self =>
    -- The root is a command, so it is no option.
    have start := (admits_of_parseTokens made parsed).1
    obtain ⟨number, _⟩ := Tree.branch.inj branch
    have root : model.node? model.root.id = some model.root := node?_id made List.mem_cons_self
    rw [number, start, root] at known
    cases known
    have param := (root_of_ofSchema made).2
    simp [Node.isParam, kind] at param
  | @child rule children _ outer inside =>
    subst branch
    obtain ⟨first, last, _, chosen⟩ :=
      (chooses_root made parsed).of_standsIn (Nat.zero_le _) outer _ _ rfl
    cases chosen with
    | switch | spaced | joined | positional => simp at inside
    | @command _ command _ _ trees found isCommand name items =>
      obtain rfl := (stands_of_node? made found).id
      obtain ⟨before, after, rfl⟩ :
          ∃ before after, trees = before ++ Tree.branch option.id _ :: after :=
        List.append_of_mem ((List.mem_cons.1 inside).resolve_left (by simp))
      have within : first + 1 ≤ tokens.length := (List.getElem?_eq_some_iff.1 name).1
      obtain ⟨at_place, below, chosen⟩ := items.after within
      obtain ⟨id, listed, split, own, rest, _⟩ := chosen.first
      have between := own.between below
      cases own with
      | command same command =>
        rw [known] at same
        cases same
        simp [Node.isCommand, Node.isParam, kind] at command
      | joined =>
        have divides := (rest.divides made between.2.1).2.2
        rw [(rest.between between.2.1).2.2] at divides
        have declared := declared_of_alternatives known listed
        have spelled : tokensOf (Tree.branch option.id [.leaf ⟨.literal, flag, place⟩,
            .leaf ⟨.literal, "=", place + 1⟩, .leaf ⟨.value, value, place + 2⟩] :: after) =
            flag :: "=" :: value :: tokensOf after := by
          simp [tokensOf, leavesOf, Tree.leaves]
        refine .intro found isCommand outer rfl declared kind trigger spelled ?_
        simpa only [Nat.sub_sub, Option.map_map, Function.comp_def] using divides

/-- An equals sign is no trigger. -/
theorem sign_ne_trigger (made : ofSchema schema = .ok model) {id : NodeId} {node : Node}
    (found : model.node? id = some node) {triggers : List String} {takesValue : Bool}
    (kind : node.kind = .flag triggers takesValue) {trigger : String} (known : trigger ∈ triggers) :
    trigger ≠ "=" := by
  rintro rfl
  have formed := (triggers_of_node? made found kind).2 _ known
  exact absurd formed (by decide)

/-- A flag in the tree begins a branch with its trigger. -/
theorem beginsBranch_of_flag (made : ofSchema schema = .ok model) {id : NodeId} {node : Node}
    (found : model.node? id = some node) {triggers : List String} {takesValue : Bool}
    (kind : node.kind = .flag triggers takesValue) (known : flag ∈ triggers) {rest : List Tree}
    (stands : parse.root.StandsIn (.branch id (.leaf ⟨.literal, flag, place⟩ :: rest))) :
    model.BeginsBranch parse place flag := by
  obtain rfl := (stands_of_node? made found).id
  have word : flag ∈ node.words := by simpa [Node.words, kind] using known
  exact ⟨node, List.mem_of_getElem? found, .inr word, .literal, rest, stands⟩

/-- A command in the tree begins a branch with its name. -/
theorem beginsBranch_of_command (made : ofSchema schema = .ok model) {id : NodeId} {node : Node}
    (found : model.node? id = some node) (command : node.isCommand = true) {rest : List Tree}
    (stands : parse.root.StandsIn (.branch id (.leaf ⟨.literal, node.name, place⟩ :: rest))) :
    model.BeginsBranch parse place node.name := by
  obtain rfl := (stands_of_node? made found).id
  have word : node.name ∈ node.words := by
    unfold Node.words
    cases kind : node.kind <;> simp_all [Node.isCommand, Node.isParam]
  exact ⟨node, List.mem_of_getElem? found, .inr word, .literal, rest, stands⟩

/-- Where a word's three tokens are no option in the tree, the value begins a branch. -/
theorem hasJoined_or_beginsBranch (made : ofSchema schema = .ok model)
    (parsed : model.parseTokens mode input tokens = .ok parse) (first : tokens[place]? = some flag)
    (second : tokens[place + 1]? = some "=") (third : tokens[place + 2]? = some value) :
    model.HasJoined parse place flag value ∨ model.BeginsBranch parse (place + 2) value := by
  have below : place + 2 < tokens.length := (List.getElem?_eq_some_iff.1 third).1
  obtain ⟨tree, member, id, own, start, stop, stands, inside, chosen, leaf, child, index⟩ :=
    (chooses_root made parsed).exists_leaf (Nat.zero_le _) (Nat.zero_le _) below
  obtain rfl := List.mem_singleton.1 member
  -- The branch that the value is a leaf of tells whether it begins there.
  cases chosen with
  | switch found kind known begins =>
    obtain rfl : leaf = _ := Tree.leaf.inj (List.mem_singleton.1 child)
    subst index
    obtain rfl := Option.some.inj (begins.symm.trans third)
    exact .inr (beginsBranch_of_flag made found kind known stands)
  | spaced found kind known begins next =>
    rcases List.mem_cons.1 child with same | child
    · cases same
      subst index
      obtain rfl := Option.some.inj (begins.symm.trans third)
      exact .inr (beginsBranch_of_flag made found kind known stands)
    · obtain rfl : leaf = _ := Tree.leaf.inj (List.mem_singleton.1 child)
      obtain rfl : start = place + 1 := Nat.succ.inj index
      have sign := Option.some.inj (begins.symm.trans second)
      exact absurd sign (sign_ne_trigger made found kind known)
  | @joined _ node triggers trigger text _ found kind known begins sign next =>
    rcases List.mem_cons.1 child with same | child
    · cases same
      subst index
      obtain rfl := Option.some.inj (begins.symm.trans third)
      exact .inr (beginsBranch_of_flag made found kind known stands)
    rcases List.mem_cons.1 child with same | child
    · cases same
      obtain rfl : start = place + 1 := Nat.succ.inj index
      have sign := Option.some.inj (begins.symm.trans second)
      exact absurd sign (sign_ne_trigger made found kind known)
    · obtain rfl : leaf = _ := Tree.leaf.inj (List.mem_singleton.1 child)
      obtain rfl : start = place := Nat.add_right_cancel index
      obtain rfl : flag = trigger := Option.some.inj (first.symm.trans begins)
      obtain rfl : value = text := Option.some.inj (third.symm.trans next)
      obtain rfl := (stands_of_node? made found).id
      exact .inl ⟨node, List.mem_of_getElem? found, triggers, kind, known, stands⟩
  | @positional _ node text _ found kind begins =>
    obtain rfl : leaf = _ := Tree.leaf.inj (List.mem_singleton.1 child)
    subst index
    obtain rfl : value = text := Option.some.inj (third.symm.trans begins)
    obtain rfl := (stands_of_node? made found).id
    exact .inr ⟨node, List.mem_of_getElem? found, .inl kind, .value, [], stands⟩
  | @command _ node _ _ trees found isCommand name items =>
    rcases List.mem_cons.1 child with same | child
    · cases same
      subst index
      obtain rfl : value = node.name := Option.some.inj (third.symm.trans name)
      exact .inr (beginsBranch_of_command made found isCommand stands)
    · have within : start + 1 ≤ tokens.length := (List.getElem?_eq_some_iff.1 name).1
      obtain ⟨_, _, _, _, same, _⟩ := items.of_mem within child
      cases same

/-- The tokens of a word that is cut stand among the tokens of the line. -/
theorem exists_tokens {line : String} {before after : List Line.Word} {word : Line.Word}
    (parsed : (Table.ofGrammar (model.grammar mode)).parse line = .ok parse)
    (cut : Line.words line.toList = .ok (before ++ word :: after))
    (split : (word.tokens (Table.ofGrammar (model.grammar mode)).triggers.contains).map
      Line.Token.text = [flag, "=", value])
    (counted : (before.flatMap
      (Line.Word.tokens (Table.ofGrammar (model.grammar mode)).triggers.contains)).length = place) :
    ∃ tokens : List String, model.parseTokens mode line tokens = .ok parse ∧
      tokens[place]? = some flag ∧ tokens[place + 1]? = some "=" ∧
        tokens[place + 2]? = some value := by
  have scanned : Line.tokenizeWith (Table.ofGrammar (model.grammar mode)).triggers.contains line =
      .ok ((before ++ word :: after).flatMap
        (Line.Word.tokens (Table.ofGrammar (model.grammar mode)).triggers.contains)) := by
    rw [Line.tokenizeWith, cut]
    rfl
  rw [Table.parse, scanned] at parsed
  refine ⟨_, parsed, ?_⟩
  rw [List.flatMap_append, List.flatMap_cons, List.map_append, List.map_append, split]
  have length : ((before.flatMap (Line.Word.tokens
      (Table.ofGrammar (model.grammar mode)).triggers.contains)).map
        Line.Token.text).length = place := by
    rw [List.length_map, counted]
  subst length
  refine ⟨?_, ?_, ?_⟩ <;> simp

/-- A word of an accepted line that is cut into a trigger, an equals sign and a value is one option
in the tree exactly if its first token begins an item of a command that declares such an option and
the tokens after the word divide into as many further items as the command still may or must have.
Otherwise its value begins an item of its own. -/
theorem joined_word_kept_iff (made : ofSchema schema = .ok model) {line : String}
    {before after : List Line.Word} {word : Line.Word}
    (parsed : (Table.ofGrammar (model.grammar mode)).parse line = .ok parse)
    (cut : Line.words line.toList = .ok (before ++ word :: after))
    (split : (word.tokens (Table.ofGrammar (model.grammar mode)).triggers.contains).map
      Line.Token.text = [flag, "=", value])
    (counted : (before.flatMap
      (Line.Word.tokens (Table.ofGrammar (model.grammar mode)).triggers.contains)).length = place) :
    (model.HasJoined parse place flag value ↔ model.LetsJoin mode parse place flag value) ∧
      (model.HasJoined parse place flag value ∨ model.BeginsBranch parse (place + 2) value) := by
  obtain ⟨tokens, parsed, first, second, third⟩ := exists_tokens parsed cut split counted
  refine ⟨⟨letsJoin_of_hasJoined made parsed, hasJoined_of_letsJoin made parsed⟩, ?_⟩
  exact hasJoined_or_beginsBranch made parsed first second third

/-- In a group and a subcommand with the same option, a joined word whose value is an equals sign is
an option in the tree. -/
theorem kennel_keeps_joined : ∃ model parse, ofSchema kennel = .ok model ∧
    (Table.ofGrammar (model.grammar .deferred)).parse "top --name=b dog --name== cat" = .ok parse ∧
      model.HasJoined parse 5 "--name" "=" ∧ model.LetsJoin .deferred parse 5 "--name" "=" := by
  let model : Model := ⟨.ofCommand 0 none kennel, Node.below 0 kennel⟩
  have made : ofSchema kennel = .ok model := rfl
  have accepted : ((Table.ofGrammar (model.grammar .deferred)).parse
      "top --name=b dog --name== cat").toOption.isSome = true := by
    decide +kernel
  have cut : Line.words "top --name=b dog --name== cat".toList =
      .ok ([⟨0, "top".toList, 3⟩, ⟨4, "--name=b".toList, 8⟩, ⟨13, "dog".toList, 3⟩] ++
        ⟨17, "--name==".toList, 8⟩ :: [⟨26, "cat".toList, 3⟩]) := by
    decide +kernel
  have unspelled : ∀ node ∈ model.nodes, ¬ (node.kind = .positional ∨ "=" ∈ node.words) := by
    decide +kernel
  cases parsed : (Table.ofGrammar (model.grammar .deferred)).parse
      "top --name=b dog --name== cat" with
  | error fault =>
    rw [parsed] at accepted
    cases accepted
  | ok parse =>
    obtain ⟨same, either⟩ := @joined_word_kept_iff _ _ _ _ 5 "--name" "=" made _ _ _ _ parsed cut
      (by decide +kernel) (by decide +kernel)
    have joined : model.HasJoined parse 5 "--name" "=" := by
      refine either.resolve_right ?_
      rintro ⟨node, member, begins, _⟩
      exact unspelled node member begins
    exact ⟨model, parse, made, parsed, joined, same.1 joined⟩

/-- Two options and words. -/
def renamed : Command :=
  { name := "cmd"
    params := [Param.option ["--name"], Param.option ["--opt"],
      { Param.argument "p" with multiple := true }] }

/-- Where the option before it takes its trigger as a value, a joined word is torn: the equals sign
and what follows it are words. -/
theorem joined_word_torn : ∃ model parse word, ofSchema renamed = .ok model ∧
    (Table.ofGrammar (model.grammar .deferred)).parse "cmd --name --opt=x" = .ok parse ∧
      (∃ before : List Line.Word,
        Line.words "cmd --name --opt=x".toList = .ok (before ++ [word]) ∧
          (before.flatMap (Line.Word.tokens
            (Table.ofGrammar (model.grammar .deferred)).triggers.contains)).length = 2) ∧
      (word.tokens (Table.ofGrammar (model.grammar .deferred)).triggers.contains).map
        Line.Token.text = ["--opt", "=", "x"] ∧
      ¬ model.HasJoined parse 2 "--opt" "x" := by
  let model : Model := ⟨.ofCommand 0 none renamed, Node.below 0 renamed⟩
  have leaves : ((Table.ofGrammar (model.grammar .deferred)).parse
      "cmd --name --opt=x").toOption.map (·.root.leaves) =
        some [⟨.literal, "cmd", 0⟩, ⟨.literal, "--name", 1⟩, ⟨.value, "--opt", 2⟩,
          ⟨.value, "=", 3⟩, ⟨.value, "x", 4⟩] := by
    decide +kernel
  cases parsed : (Table.ofGrammar (model.grammar .deferred)).parse "cmd --name --opt=x" with
  | error fault =>
    rw [parsed] at leaves
    cases leaves
  | ok parse =>
    rw [parsed] at leaves
    refine ⟨model, parse, ⟨11, "--opt=x".toList, 7⟩, rfl, parsed,
      ⟨[⟨0, "cmd".toList, 3⟩, ⟨4, "--name".toList, 6⟩], by decide +kernel, by decide +kernel⟩,
      by decide +kernel, ?_⟩
    rintro ⟨node, _, _, _, _, stands⟩
    have sign : ⟨.literal, "=", 3⟩ ∈ parse.root.leaves :=
      stands.leaves_subset (by simp [Tree.leaves, leavesOf])
    have all : parse.root.leaves = _ := Option.some.inj leaves
    rw [all] at sign
    revert sign
    decide

end Model

end CommandGrammar
