import Mathlib
import CommandGrammar.Proofs.Flatten.Stars
import CommandGrammar.Proofs.Grammar.Closed

/-!
# Grammars that can be made

A grammar is made of hand-written productions or compiled from a model. Either way it is closed, and
that is all that flattening needs: it looks up no node without production, uses no nonterminal that
it does not make, and puts each star where the reader expects it, in its own rule and at the end of
the rule of its repetition.
-/

namespace CommandGrammar

/-! ## Numbers of nodes -/

namespace Flatten

variable {rule other : NodeId → Nat}

mutual

/-- The symbol of an expression is settled by the numbers of the nodes that it refers to. -/
theorem symbol_congr (expr : Expr) (next : Nat)
    (same : ∀ id ∈ expr.references, rule id = other id) :
    symbol rule next expr = symbol other next expr := by
  cases expr with
  | literal | value => rfl
  | rule id => rw [symbol, symbol, same id (List.mem_singleton_self id)]
  | seq items => rw [symbol, symbol, sequences_congr items _ same]
  | alt items => rw [symbol, symbol, sequences_congr items _ same]
  | optional inner => rw [symbol, symbol, alternatives_congr inner _ same]
  | repetition inner min max => rw [symbol, symbol, symbol_congr inner _ same]

/-- So are the symbols of an expression. -/
theorem sequence_congr (expr : Expr) (next : Nat)
    (same : ∀ id ∈ expr.references, rule id = other id) :
    sequence rule next expr = sequence other next expr := by
  cases expr with
  | literal | value => rfl
  | rule id => rw [sequence, sequence, same id (List.mem_singleton_self id)]
  | seq items => rw [sequence, sequence, sequences_congr items _ same]
  | alt items => rw [sequence, sequence, sequences_congr items _ same]
  | optional inner => rw [sequence, sequence, alternatives_congr inner _ same]
  | repetition inner min max => rw [sequence, sequence, symbol_congr inner _ same]

/-- So are the alternatives of an expression. -/
theorem alternatives_congr (expr : Expr) (next : Nat)
    (same : ∀ id ∈ expr.references, rule id = other id) :
    alternatives rule next expr = alternatives other next expr := by
  cases expr with
  | literal | value => rfl
  | rule id => rw [alternatives, alternatives, same id (List.mem_singleton_self id)]
  | seq items => rw [alternatives, alternatives, sequences_congr items _ same]
  | alt items => rw [alternatives, alternatives, sequences_congr items _ same]
  | optional inner => rw [alternatives, alternatives, alternatives_congr inner _ same]
  | repetition inner min max => rw [alternatives, alternatives, symbol_congr inner _ same]

/-- So are the symbols of several expressions. -/
theorem sequences_congr (items : List Expr) (next : Nat)
    (same : ∀ id ∈ referencesOf items, rule id = other id) :
    sequences rule next items = sequences other next items := by
  cases items with
  | nil => rfl
  | cons item rest =>
    rw [referencesOf, List.forall_mem_append] at same
    rw [sequences, sequences, sequence_congr item next same.1, sequences_congr rest _ same.2]

end

/-- The nonterminals of productions are settled by the numbers of the nodes that these refer to. -/
theorem productions_congr (productions : List Production) (next : Nat)
    (same : ∀ production ∈ productions, ∀ id ∈ production.expr.references, rule id = other id) :
    Flatten.productions rule next productions = Flatten.productions other next productions := by
  induction productions generalizing next with
  | nil => rfl
  | cons production rest ih =>
    rw [List.forall_mem_cons] at same
    rw [Flatten.productions, Flatten.productions, alternatives_congr production.expr next same.1,
      ih _ same.2]

end Flatten

/-- The flat rules of a grammar whose nodes have some numbers. -/
def Rules.numbered (rule : NodeId → Nat) (grammar : Grammar) : Rules :=
  let made := Flatten.productions rule grammar.size grammar.productions
  ⟨(made.1 ++ made.2).toArray, rule grammar.start⟩

namespace Grammar

/-- A grammar that can be made. -/
inductive Constructible : Grammar → Prop where
  /-- Of hand-written productions. -/
  | written {start : NodeId} {productions : List Production} {grammar : Grammar}
      (made : ofProductions? start productions = some grammar) : Constructible grammar
  /-- From a schema that has a model, in a mode. -/
  | compiled {schema : Command} {model : Model} (made : Model.ofSchema schema = .ok model)
      (mode : RequiredParams) : Constructible (model.grammar mode)

/-- A star and the repetition that it was made for. -/
structure Repeats (rules : Rules) (star : Nat) (item : Symbol) : Prop where
  /-- It derives itself and its item, or nothing. -/
  own : rules.alternatives star = [[.nonterminal star, item], []]
  /-- The item is another symbol. -/
  apart : item ≠ .nonterminal star
  /-- The only other rule that uses it is that of a repetition, as the last symbol. -/
  last : ∃ index min, index ≠ star ∧ rules.label index = .auxiliary ∧
    rules.alternatives index = [List.replicate min item ++ [.nonterminal star]] ∧
    ∀ other, rules.Uses other star → other = star ∨ other = index

/-- The grammar can be flattened, and its flat rules have the form that the reader relies on. -/
structure Flattens (grammar : Grammar) : Prop where
  /-- No number is looked up but those of nodes with productions. -/
  numbers : ∀ rule : NodeId → Nat, (∀ id ∈ grammar.ids, rule id = grammar.number id) →
    Rules.numbered rule grammar = Rules.ofGrammar grammar
  /-- Under these numbers there are the nonterminals of the nodes. -/
  named : ∀ id ∈ grammar.ids, grammar.number id < (Rules.ofGrammar grammar).size ∧
    (Rules.ofGrammar grammar).label (grammar.number id) = .named id
  /-- The one to derive is that of the start node. -/
  start : grammar.start ∈ grammar.ids ∧
    (Rules.ofGrammar grammar).start = grammar.number grammar.start
  /-- What the alternatives use are nonterminals. -/
  known : ∀ index other, (Rules.ofGrammar grammar).Uses index other →
    other < (Rules.ofGrammar grammar).size
  /-- So are items of stars. -/
  items : ∀ star index, (Rules.ofGrammar grammar).label star = .star (.nonterminal index) →
    index < (Rules.ofGrammar grammar).size
  /-- A star stands in its own rule and at the end of that of its repetition. -/
  stars : ∀ star item, (Rules.ofGrammar grammar).label star = .star item →
    Repeats (Rules.ofGrammar grammar) star item

variable {grammar : Grammar}

/-- Grammars that can be made are closed. -/
theorem Constructible.isClosed (made : grammar.Constructible) : grammar.isClosed = true := by
  cases made with
  | written made =>
    unfold ofProductions? at made
    obtain ⟨closed, same⟩ := Option.ite_none_right_eq_some.1 made
    cases same
    exact closed
  | compiled made mode => exact Model.grammar_isClosed made mode

/-- A star of a closed grammar has its repetition. -/
theorem repeats_of_label (closed : grammar.isClosed = true) {star : Nat} {item : Symbol}
    (label : (Rules.ofGrammar grammar).label star = .star item) :
    Repeats (Rules.ofGrammar grammar) star item := by
  have shaped := starShaped closed
  have segment := segment closed
  have among {index : Nat} (inside : index < (Rules.ofGrammar grammar).size) :
      Rules.Among 0 (Rules.ofGrammar grammar).size index := by
    unfold Rules.Among
    omega
  obtain ⟨_, has⟩ := Rules.has_of_label label (by simp)
  obtain ⟨index, inside, ends⟩ := segment.ended star (among has.lt_size) item label
  obtain ⟨min, other, same, auxiliary, alternatives⟩ := id ends
  obtain rfl : item = other := by simpa [label] using same
  refine ⟨shaped.alternatives label, fun same => ?_, index, min, fun same => ?_, auxiliary,
    alternatives, fun other uses => ?_⟩
  · exact shaped.item (same ▸ label) label
  · rw [same, label] at auxiliary
    cases auxiliary
  · obtain ⟨_, member, _⟩ := id uses
    have otherAmong := among (Rules.lt_size_of_mem_alternatives member)
    exact (segment.used other otherAmong star item label uses).imp_right fun otherEnds =>
      segment.once other otherAmong index inside star otherEnds ends

/-- A closed grammar can be flattened. -/
theorem flattens_of_isClosed (closed : grammar.isClosed = true) : grammar.Flattens := by
  have known (index other : Nat) (uses : (Rules.ofGrammar grammar).Uses index other) :
      other < (Rules.ofGrammar grammar).size := by
    obtain ⟨_, member, _⟩ := id uses
    have inside := Rules.lt_size_of_mem_alternatives member
    exact (segment closed).known index (by unfold Rules.Among; omega) other uses
  refine ⟨fun rule same => ?_, fun id member => ?_, ⟨start_known closed, rfl⟩, known,
    fun star index label => ?_, fun star item => repeats_of_label closed⟩
  · have made : Flatten.productions rule grammar.size grammar.productions =
        Flatten.productions grammar.number grammar.size grammar.productions :=
      Flatten.productions_congr grammar.productions grammar.size
        fun production member id referred => same id (references_known closed member referred)
    rw [Rules.numbered, made, same _ (start_known closed)]
    rfl
  · obtain ⟨_, has⟩ := Rules.has_of_label (label_number member) (by simp)
    exact ⟨has.lt_size, label_number member⟩
  · refine known star index ⟨[.nonterminal star, .nonterminal index], ?_, by simp⟩
    rw [(repeats_of_label closed label).own]
    exact List.mem_cons_self

/-- Hand-written productions make a grammar exactly if they close, and it has those that stand for
their nodes; the productions of a model's grammar close; and all these grammars can be flattened. -/
theorem constructible_flattens :
    (∀ start productions,
      (ofProductions? start productions).isSome = true ↔ Closes start productions) ∧
    (∀ start productions grammar, ofProductions? start productions = some grammar →
      grammar.start = start ∧ ∀ production : Production,
        production ∈ grammar.productions ↔ production.Stands productions) ∧
    (∀ schema model mode, Model.ofSchema schema = .ok model →
      Closes (model.grammar mode).start (model.grammar mode).productions) ∧
    ∀ grammar, Constructible grammar → grammar.Flattens := by
  refine ⟨fun start productions => ?_, fun start productions grammar made => ?_,
    fun schema model mode made => ?_, fun grammar made => flattens_of_isClosed made.isClosed⟩
  · simp [Option.isSome_iff_exists, ofProductions?_eq_some_iff]
  · obtain ⟨_, rfl⟩ := ofProductions?_eq_some_iff.1 made
    exact ⟨rfl, fun production => mem_standing_iff⟩
  · exact closes_of_isClosed (Model.grammar_isClosed made mode)

/-- A list of items: the production of an item is listed twice, and what it was at first does not
matter. -/
def written : List Production :=
  [⟨1, "item", .rule 7⟩, ⟨0, "list", .seq [.literal "[", .repetition (.rule 1) 2 none]⟩,
    ⟨1, "item", .alt [.value, .rule 0]⟩]

/-- The list can be flattened: nonterminal three is the star of its items, and nonterminal two two
items and that star. -/
theorem written_flattens : Closes 0 written ∧ ∃ grammar, ofProductions? 0 written = some grammar ∧
    grammar.Flattens ∧ (Rules.ofGrammar grammar).label 3 = .star (.nonterminal 1) ∧
    (Rules.ofGrammar grammar).alternatives 2 =
      [[.nonterminal 1, .nonterminal 1, .nonterminal 3]] := by
  have made : ofProductions? 0 written =
      some ⟨[⟨0, "list", .seq [.literal "[", .repetition (.rule 1) 2 none]⟩,
        ⟨1, "item", .alt [.value, .rule 0]⟩], 0⟩ := rfl
  obtain ⟨closes, _, _, flattens⟩ := constructible_flattens
  exact ⟨(closes 0 written).1 (by rw [made]; rfl), _, made, flattens _ (.written made), rfl, rfl⟩

end Grammar

end CommandGrammar
