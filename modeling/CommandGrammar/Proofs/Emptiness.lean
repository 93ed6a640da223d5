import Mathlib
import CommandGrammar.Proofs.Chart.Marking
import CommandGrammar.Proofs.Flatten.Language
import CommandGrammar.Proofs.Model.Compiled

/-!
# What derives the empty sequence

The marks of nullable nonterminals are exact: they mark what derives the empty sequence, and
the rules may be gone through in any way to find them. For the flat rules of a closed grammar
this says which nodes derive the empty sequence in the grammar itself. In a compiled grammar
no node does, since whatever a node derives begins with a word of its own or is a value.
-/

namespace CommandGrammar

namespace Grammar

variable {grammar : Grammar}

/-- A node of a closed grammar is marked exactly if its production derives the empty sequence. -/
theorem nullable_number_iff (closed : grammar.isClosed = true) (bounded : grammar.isBounded = true)
    {id : NodeId} {production : Production} (found : grammar.production? id = some production) :
    (Rules.ofGrammar grammar).nullable.getD (grammar.number id) false = true ↔
      grammar.Derives production.expr [] := by
  rw [Rules.nullable_iff, flat_derives_iff closed bounded (mem_ids_of_production? found),
    derives_rule_iff]
  constructor
  · rintro ⟨other, same, derived⟩
    rw [found] at same
    cases same
    exact derived
  · intro derived
    exact ⟨production, found, derived⟩

/-- A sequence that begins with a literal derives no empty sequence. -/
theorem not_derives_nil_literal_seq {text : String} {items : List Expr} :
    ¬ grammar.Derives (.seq (.literal text :: items)) [] := by
  intro derived
  obtain ⟨first, others, divided, head, _⟩ := derives_seq_cons_iff.1 derived
  obtain rfl := derives_literal_iff.1 head
  simp at divided

end Grammar

namespace Model

variable {schema : Command} {model : Model} {mode : RequiredParams} {grammar : Grammar}

/-- A flag derives no empty sequence. -/
theorem not_derives_nil_flagExpr {triggers : List String} {takesValue : Bool} :
    ¬ grammar.Derives (flagExpr triggers takesValue) [] := by
  intro derived
  obtain ⟨item, member, chosen⟩ := Grammar.derives_choice_iff.1 derived
  obtain ⟨trigger, _, rfl⟩ := List.mem_map.1 member
  cases takesValue with
  | true => exact Grammar.not_derives_nil_literal_seq chosen
  | false => simpa using Grammar.derives_literal_iff.1 chosen

/-- No node derives the empty sequence. -/
theorem not_derives_nil_nodeExpr (bounds : Nat × Option Nat) (node : Node) :
    ¬ grammar.Derives (nodeExpr bounds node) [] := by
  unfold nodeExpr
  split
  case h_1 => exact not_derives_nil_flagExpr
  case h_2 => simp [Grammar.derives_value_iff]
  case h_3 =>
    unfold commandExpr
    split
    · simp [Grammar.derives_literal_iff]
    · exact Grammar.not_derives_nil_literal_seq
  case h_4 => exact Grammar.not_derives_nil_literal_seq

/-- No node is marked in a compiled grammar. -/
theorem nullable_grammar (made : ofSchema schema = .ok model) {id : NodeId}
    (known : id ∈ (model.grammar mode).ids) :
    (Rules.ofGrammar (model.grammar mode)).nullable.getD ((model.grammar mode).number id) false =
      false := by
  have same : (model.readGrammar mode).number id = (model.grammar mode).number id := by
    simp only [Grammar.number, readGrammar, Grammar.ids_leveled]
  rw [← Grammar.ids_leveled] at known
  obtain ⟨production, found⟩ := Grammar.production?_isSome known
  obtain ⟨node, _, rfl⟩ := node?_of_read made found
  have exact := Grammar.nullable_number_iff (readGrammar_isClosed made mode)
    (readGrammar_isBounded model mode) found
  rw [same, readGrammar, Grammar.rules_leveled] at exact
  exact Bool.eq_false_iff.2 fun marked => not_derives_nil_nodeExpr _ node (exact.1 marked)

end Model

namespace Rules

/-- Nullability is exact. Whatever the flat rules are, the rounds of marking come to an end, with
marks for exactly the nonterminals that derive the empty sequence; no rule adds to them, and all
other marks to which no rule adds hold them. Scans of the single rules, in which a mark counts at
once, come to the same marks in whatever order the rules are listed, and every list of rules lists
some flat rules. In the flat rules of a closed and bounded grammar a node is marked exactly if its
production derives the empty sequence, and in a compiled grammar no node is. -/
theorem nullability_exact :
    (∀ rules : Rules,
      Settles rules.markRound (Array.replicate rules.size false) rules.nullable ∧
      (∀ index, rules.nullable.getD index false = true ↔
        rules.Derives [.nonterminal index] []) ∧
      rules.markRound rules.nullable = rules.nullable ∧
      (∀ marks, MarksWithin (rules.markRound marks) marks → MarksWithin rules.nullable marks) ∧
      ∀ listed, rules.IsListing listed →
        Settles (markScan listed) (Array.replicate rules.size false) rules.nullable) ∧
    (∀ (count start : Nat) (listed : List Single), (∀ single ∈ listed, single.1 < count) →
      (ofListed count start listed).size = count ∧
        (ofListed count start listed).IsListing listed) ∧
    (∀ grammar : Grammar, grammar.isClosed = true → grammar.isBounded = true →
      ∀ (id : NodeId) (production : Production), grammar.production? id = some production →
        ((ofGrammar grammar).nullable.getD (grammar.number id) false = true ↔
          grammar.Derives production.expr [])) ∧
    ∀ (schema : Command) (model : Model) (mode : RequiredParams),
      Model.ofSchema schema = .ok model → ∀ id ∈ (model.grammar mode).ids,
        (ofGrammar (model.grammar mode)).nullable.getD ((model.grammar mode).number id) false =
          false := by
  refine ⟨fun rules => ⟨?_, ?_, ?_, ?_, ?_⟩, ?_, ?_, ?_⟩
  · exact settles_nullable rules
  · exact fun index => nullable_iff
  · exact markRound_nullable
  · exact fun marks closed => nullable_within closed
  · exact fun listed listing => settles_markScan listing
  · exact fun count start listed known => ⟨by simp [ofListed, size], isListing_ofListed start known⟩
  · exact fun grammar closed bounded id production found =>
      Grammar.nullable_number_iff closed bounded found
  · exact fun schema model mode made id known => Model.nullable_grammar made known

/-- Two nonterminals that may each be the other, of which the second may also be nothing. -/
def circular : List Single := [(0, [.nonterminal 1]), (1, [.nonterminal 0]), (1, [])]

/-- A grammar in which nodes need each other: the first is nothing only because both of its parts
may be, and one of these may be the first again. -/
def entwined : Grammar where
  productions := [
    ⟨0, "pair", .seq [.rule 1, .rule 2]⟩,
    ⟨1, "again", .alt [.rule 0, .repetition (.literal "a") 0 none]⟩,
    ⟨2, "twice", .repetition (.optional (.rule 3)) 2 (some 3)⟩,
    ⟨3, "word", .value⟩]
  start := 0

/-- The first node of the grammar derives the empty sequence. -/
theorem entwined_derives_nil : entwined.Derives (.seq [.rule 1, .rule 2]) [] := by
  have again : entwined.Derives (.rule 1) [] :=
    .rule rfl (.alt (.tail _ (.head _)) (.repetition [] (by simp) (by simp) (by simp)))
  have twice : entwined.Derives (.rule 2) [] :=
    .rule rfl (.repetition [[], []] (by simp) (by simp) (by simpa using .absent _))
  exact .seqCons again (.seqCons twice .seqNil)

/-- Scans mark both of the circular nonterminals; of the entwined nodes the first is marked and the
last is not, and no node of a compiled command is. -/
theorem entwined_nullability :
    (∀ single ∈ circular, single.1 < 2) ∧
    Settles (markScan circular) #[false, false] (ofListed 2 0 circular).nullable ∧
    (ofListed 2 0 circular).nullable.getD 0 false = true ∧
    entwined.isClosed = true ∧ entwined.isBounded = true ∧
    (ofGrammar entwined).nullable.getD (entwined.number 0) false = true ∧
    (ofGrammar entwined).nullable.getD (entwined.number 3) false = false ∧
    ∃ model, Model.ofSchema { name := "go", params := [.switch ["-f"]] } = .ok model ∧
      (ofGrammar (model.grammar .counted)).nullable.getD
        ((model.grammar .counted).number 1) false = false := by
  obtain ⟨marking, listing, named, compiled⟩ := nullability_exact
  have known : ∀ single ∈ circular, single.1 < 2 := by decide
  obtain ⟨size, listed⟩ := listing 2 0 circular known
  obtain ⟨_, marked, _, _, scans⟩ := marking (ofListed 2 0 circular)
  have scanned := scans circular listed
  rw [size] at scanned
  have second : (ofListed 2 0 circular).Derives [.nonterminal 1] [] :=
    derives_nonterminal_iff.2 ⟨[], (listed 1 []).1 (by decide), .nil⟩
  have first : (ofListed 2 0 circular).Derives [.nonterminal 0] [] :=
    derives_nonterminal_iff.2 ⟨_, (listed 0 [.nonterminal 1]).1 (by decide), second⟩
  have pair := named entwined (by decide) (by decide) 0 _ rfl
  have word := named entwined (by decide) (by decide) 3 _ rfl
  refine ⟨known, scanned, (marked 0).2 first, by decide, by decide,
    pair.2 entwined_derives_nil, ?_, _, rfl, ?_⟩
  · exact Bool.eq_false_iff.2 fun wrong => by
      simpa using Grammar.derives_value_iff.1 (word.1 wrong)
  · exact compiled { name := "go", params := [.switch ["-f"]] } _ .counted rfl 1 (by decide)

end Rules

end CommandGrammar
