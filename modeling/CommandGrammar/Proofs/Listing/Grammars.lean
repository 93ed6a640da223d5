import Mathlib
import CommandGrammar.Proofs.Listing.Expressions
import CommandGrammar.Proofs.Model.Productions
import CommandGrammar.Proofs.Model.Productive

/-!
# Reading grammars

A listing is read line by line: the name of a rule ends in the number of its node, a question
mark begins the lines after the productions, and the last of these names the start rule.
Compiled grammars are read back whole: whatever the display names are, their rules are named by
plain characters and a number, and since flags have triggers and groups have subcommands, no
choice is without items.
-/

namespace CommandGrammar

namespace Listing

variable {grammar : Grammar}

/-! ## Listings -/

/-- Reads the lines of productions; the fuel bounds their number and what is in them. -/
def readProductions : Nat → List Char → Option (List Production × List Char)
  | 0, _ => none
  | _ + 1, '?' :: rest => some ([], '?' :: rest)
  | fuel + 1, cs =>
    let name := cs.takeWhile isNameChar
    (readLine fuel ((cs.dropWhile isNameChar).drop 3)).bind fun (expr, rest) =>
      (readProductions fuel (rest.drop 1)).map fun (others, rest) =>
        (⟨numberOf name, String.ofList name, expr⟩ :: others, rest)

/-- What stands between the productions and the name of the start rule. -/
def trailer : String := "?value : /\\S+/\n?start : "

/-- Reads a listing. -/
def readListing (fuel : Nat) (text : String) : Option Grammar :=
  (readProductions fuel text.toList).map fun (productions, rest) =>
    ⟨productions, numberOf ((rest.drop trailer.toList.length).takeWhile isNameChar)⟩

/-- A grammar whose names tell its nodes, with a start rule. -/
structure Legible (grammar : Grammar) : Prop where
  /-- Every production has the name of its node. -/
  names : ∀ production ∈ grammar.productions, Names production.name production.id
  /-- Every right-hand side can be spelled. -/
  spells : ∀ production ∈ grammar.productions, Spells grammar production.expr
  /-- The start rule has a production. -/
  start : ∃ production, grammar.production? grammar.start = some production

/-- A line that begins with a word is that of a production. -/
theorem readProductions_word {word rest : List Char} (begun : word ≠ [])
    (each : ∀ c ∈ word, isNameChar c = true) (apart : Apart rest) (fuel : Nat) :
    readProductions (fuel + 1) (word ++ rest) =
      (readLine fuel (rest.drop 3)).bind fun (expr, rest) =>
        (readProductions fuel (rest.drop 1)).map fun (others, rest) =>
          (⟨numberOf word, String.ofList word, expr⟩ :: others, rest) := by
  obtain ⟨whole, after⟩ := Text.run_append each apart
  cases word with
  | nil => contradiction
  | cons c others =>
    have first := each c List.mem_cons_self
    rw [List.cons_append] at whole after ⊢
    rw [readProductions, whole, after]
    rintro _ ⟨⟩
    revert first
    decide

/-- A production is read from its line. -/
theorem readProductions_productionText {production : Production}
    (named : Names production.name production.id) (spells : Spells grammar production.expr)
    {others : List Production} {rest after : List Char}
    (tail : Returns (readProductions · rest) (others, after)) :
    Returns (readProductions · ((grammar.productionText production).toList ++ rest))
      (production :: others, after) := by
  have text : (grammar.productionText production).toList ++ rest = production.name.toList ++
      ' ' :: ':' :: ' ' :: ((grammar.exprText false production.expr).toList ++ '\n' :: rest) := by
    simp [Grammar.productionText]
  have line := spells.readLine (⟨'\n', rest, rfl, .inl rfl⟩ : Closes ('\n' :: rest))
  have sign : isNameChar ' ' = false := rfl
  rw [text]
  refine .of_succ ?_
  simp only [readProductions_word named.ne_nil named.chars (apart_cons _ sign), named.numberOf,
    String.ofList_toList]
  exact line.bind (tail.map _)

/-- Productions are read from their lines. -/
theorem readProductions_join {productions : List Production}
    (names : ∀ production ∈ productions, Names production.name production.id)
    (spells : ∀ production ∈ productions, Spells grammar production.expr) (rest : List Char) :
    Returns (readProductions ·
      ((String.join (productions.map grammar.productionText)).toList ++ '?' :: rest))
      (productions, '?' :: rest) := by
  induction productions with
  | nil => exact .of_succ (.of_forall fun _ => rfl)
  | cons production others ih =>
    have tail := ih (fun other member => names other (.tail _ member))
      fun other member => spells other (.tail _ member)
    rw [List.map_cons, String.join_cons, String.toList_append, List.append_assoc]
    exact readProductions_productionText (names _ List.mem_cons_self) (spells _ List.mem_cons_self)
      tail

/-- A legible grammar is read from its listing. -/
theorem Legible.readListing (legible : Legible grammar) :
    Returns (readListing · grammar.listing) grammar := by
  obtain ⟨production, found⟩ := legible.start
  have named := legible.names production (Grammar.mem_of_production? found)
  have text : grammar.listing.toList =
      (String.join (grammar.productions.map grammar.productionText)).toList ++
        (trailer.toList ++ (production.name.toList ++ ['\n'])) := by
    simp [Grammar.listing, found, trailer]
  have start := (Text.run_append named.chars (apart_cons [] (rfl : isNameChar '\n' = false))).1
  have mark : trailer.toList = '?' :: trailer.toList.tail := rfl
  have lines := readProductions_join legible.names legible.spells
    (trailer.toList.tail ++ (production.name.toList ++ ['\n']))
  rw [← List.cons_append, ← mark, ← text] at lines
  have read := lines.map fun (productions, rest) => (⟨productions,
    numberOf ((rest.drop trailer.toList.length).takeWhile isNameChar)⟩ : Grammar)
  simp only [List.drop_left, start, named.numberOf, Grammar.id_of_production? found] at read
  exact read

end Listing

/-! ## Compiled grammars -/

namespace Model

/-- Rule names are made of name characters. -/
theorem isNameChar_ruleNameChar (letter : Char) :
    Listing.isNameChar (ruleNameChar letter) = true := by
  unfold ruleNameChar
  split
  · next plain =>
    rcases Bool.or_eq_true_iff.1 plain with alpha | digit
    · simp [Listing.isNameChar, Char.isAlphanum, alpha]
    · have lower : ¬ letter.isUpper = true := by
        simp only [Char.isDigit, Char.isUpper, Bool.and_eq_true, decide_eq_true_eq,
          UInt32.le_iff_toNat_le, ge_iff_le, Char.reduceVal, UInt32.reduceToNat] at digit ⊢
        omega
      simp [Char.toLower_eq_of_not_isUpper lower, Listing.isNameChar_of_isDigit digit]
  · rfl

/-- The name of a node's rule names the node. -/
theorem names_ruleName (node : Node) : Listing.Names (ruleName node) node.id := by
  refine ⟨node.name.toList.map ruleNameChar, ?_, ?_⟩
  · intro c member
    obtain ⟨letter, _, rfl⟩ := List.mem_map.1 member
    exact isNameChar_ruleNameChar letter
  · simp [ruleName]

variable {schema : Command} {model : Model} {mode : RequiredParams} {grammar : Grammar}
  {node : Node} {id : NodeId}

/-- A choice of expressions that can be spelled can be spelled. -/
theorem spells_choice {items : List Expr} (some : items ≠ [])
    (each : ∀ item ∈ items, Listing.Spells grammar item) :
    Listing.Spells grammar (Expr.choice items) := by
  match items with
  | [] => contradiction
  | [item] => exact each item List.mem_cons_self
  | first :: second :: others =>
    exact .several true first (List.cons_ne_nil second others) (each first List.mem_cons_self)
      fun item member => each item (.tail _ member)

/-- A choice of rules with the names of their nodes can be spelled. -/
theorem spells_rules {ids : List NodeId} (some : ids ≠ [])
    (named : ∀ id ∈ ids, Listing.Names (grammar.nameOf id) id) :
    Listing.Spells grammar (Expr.choice (ids.map .rule)) := by
  refine spells_choice (by simpa using some) fun item member => ?_
  obtain ⟨id, known, rfl⟩ := List.mem_map.1 member
  exact .rule (named id known)

/-- The expression of a flag with triggers can be spelled. -/
theorem spells_flagExpr {triggers : List String} (some : triggers ≠ []) (takesValue : Bool) :
    Listing.Spells grammar (flagExpr triggers takesValue) := by
  refine spells_choice (by simpa using some) fun item member => ?_
  obtain ⟨trigger, _, rfl⟩ := List.mem_map.1 member
  split
  · refine .several false (.literal trigger) (List.cons_ne_nil _ _) (.literal trigger) ?_
    simpa using And.intro (Listing.Spells.literal "=").optional .value
  · exact .literal trigger

/-- The expression of a command can be spelled. -/
theorem spells_commandExpr (bounds : Nat × Option Nat) {command : Node}
    (named : ∀ id ∈ command.params, Listing.Names (grammar.nameOf id) id) :
    Listing.Spells grammar (commandExpr bounds command) := by
  by_cases none_declared : command.params.isEmpty = true
  · rw [commandExpr, if_pos none_declared]
    exact .literal command.name
  · have choice := spells_rules (by simpa using none_declared) named
    rw [commandExpr, if_neg none_declared]
    refine .several false (.literal command.name) (List.cons_ne_nil _ _) (.literal command.name) ?_
    simpa using choice.repetition bounds.1 bounds.2

/-- The expression of a group with subcommands can be spelled. -/
theorem spells_groupExpr {group : Node} (some : group.subcommands ≠ [])
    (named : ∀ id ∈ group.declared, Listing.Names (grammar.nameOf id) id) :
    Listing.Spells grammar (groupExpr group) := by
  have declared : group.subcommands ++ group.params ≠ [] := by simp [some]
  have choice := spells_rules declared fun id known =>
    named id (List.mem_append.2 (List.mem_append.1 known).symm)
  refine .several false (.literal group.name) (List.cons_ne_nil _ _) (.literal group.name) ?_
  simpa using choice.repetition 1 none

/-- The rule of a node has the name of the node. -/
theorem names_nameOf (made : ofSchema schema = .ok model) (found : model.node? id = some node) :
    Listing.Names ((model.grammar mode).nameOf id) id := by
  rw [Grammar.nameOf, production?_grammar made mode found]
  exact (stands_of_node? made found).id ▸ names_ruleName node

/-- The expression of a node can be spelled. -/
theorem spells_exprOf (made : ofSchema schema = .ok model) (found : model.node? id = some node) :
    Listing.Spells (model.grammar mode) (model.exprOf mode node) := by
  have named : ∀ id ∈ node.declared, Listing.Names ((model.grammar mode).nameOf id) id := by
    intro id declared
    obtain ⟨other, known⟩ := node?_declared made (List.mem_of_getElem? found) declared
    exact names_nameOf made known
  cases kind : node.kind with
  | flag triggers takesValue =>
    have some := (triggers_of_node? made found kind).1
    simpa only [exprOf, nodeExpr, kind] using spells_flagExpr some takesValue
  | positional => simpa only [exprOf, nodeExpr, kind] using Listing.Spells.value
  | command params =>
    have own := fun id member => named id (List.mem_append_left _ member)
    simpa only [exprOf, nodeExpr, kind] using spells_commandExpr _ own
  | group params subcommands =>
    have some := subcommands_of_group made found kind
    simpa only [exprOf, nodeExpr, kind] using spells_groupExpr some named

/-- Compiled grammars are legible. -/
theorem legible_grammar (made : ofSchema schema = .ok model) (mode : RequiredParams) :
    Listing.Legible (model.grammar mode) where
  names production member := by
    obtain ⟨node, _, rfl⟩ := List.mem_map.1 member
    exact names_ruleName node
  spells production member := by
    obtain ⟨node, listed, rfl⟩ := List.mem_map.1 member
    exact spells_exprOf made (node?_id made listed)
  start := Grammar.production?_isSome (Grammar.start_known (grammar_isClosed made mode))

end Model

end CommandGrammar
