import Mathlib
import CommandGrammar.Parser
import CommandGrammar.Proofs.Model.Compiled
import CommandGrammar.Proofs.Reading.Derivation
import CommandGrammar.Proofs.Reading.Success

/-!
# Parsing is exact

A sequence of tokens has a parse exactly if the start node of the grammar derives it, and
the parse is one of its derivations. The chart covers the tokens exactly if they are
derived; then the reader finds a tree, which is one branch of the start node, so a
line is only ever refused because the chart does not cover it.
-/

namespace CommandGrammar

namespace Grammar

variable {grammar : Grammar} {tokens : List String}

/-- The chart of a closed grammar covers exactly the tokens that the start node derives. -/
theorem covers_iff_accepts (closed : grammar.isClosed = true) (bounded : grammar.isBounded = true) :
    (Chart.ofTokens (Table.ofGrammar grammar) tokens).covers (Rules.ofGrammar grammar).start 0
      tokens.length = true ↔ grammar.Accepts tokens := by
  have marks := Table.marks_ofGrammar grammar
  rw [covers_iff marks]
  have awaited : (Table.ofGrammar grammar).rules.Awaited tokens (Rules.ofGrammar grammar).start 0 :=
    .start
  rw [and_iff_right awaited]
  change (Rules.ofGrammar grammar).Spans tokens [.nonterminal (grammar.number grammar.start)] 0
    tokens.length ↔ _
  rw [Rules.spans_whole_iff, flat_derives_iff closed bounded (start_known closed)]
  rfl

/-- Of tokens that the start node derives one branch of it is read, which is a derivation. -/
theorem whole_eq_some (closed : grammar.isClosed = true) (bounded : grammar.isBounded = true)
    (covers : (Chart.ofTokens (Table.ofGrammar grammar) tokens).covers
      (Rules.ofGrammar grammar).start 0 tokens.length = true) :
    ∃ children, ((Table.ofGrammar grammar).reading tokens).whole (Rules.ofGrammar grammar).start =
        some [.branch grammar.start children] ∧
      grammar.Admits (.branch grammar.start children) ∧
      (leavesOf children).map (fun leaf => (leaf.text, leaf.index)) = tokens.zipIdx := by
  have marks := Table.marks_ofGrammar grammar
  have spans := ((covers_iff marks).1 covers).2
  obtain ⟨trees, found⟩ := Option.isSome_iff_exists.1
    (Reading.whole_isSome marks (starShaped closed) spans)
  obtain ⟨children, rfl, admitted, leaves⟩ := Reading.whole_sound closed bounded found
  exact ⟨children, found, admitted, leaves⟩

/-- Tokens that the start node derives have a parse: the branch that is read. -/
theorem parseTokens_of_accepts (closed : grammar.isClosed = true)
    (bounded : grammar.isBounded = true) (input : String) (accepts : grammar.Accepts tokens) :
    ∃ children, (Table.ofGrammar grammar).parseTokens input tokens =
        .ok ⟨input, grammar.start, children⟩ ∧
      grammar.Admits (.branch grammar.start children) ∧
      (leavesOf children).map (fun leaf => (leaf.text, leaf.index)) = tokens.zipIdx := by
  have covers := (covers_iff_accepts closed bounded).2 accepts
  obtain ⟨children, found, admitted, leaves⟩ := whole_eq_some closed bounded covers
  refine ⟨children, ?_, admitted, leaves⟩
  have covered : (Chart.ofTokens (Table.ofGrammar grammar) tokens).covers
      (Table.ofGrammar grammar).rules.start 0 tokens.length = true := covers
  have read : (Reading.mk (Table.ofGrammar grammar).rules tokens.toArray
      (Chart.ofTokens (Table.ofGrammar grammar) tokens)).whole
        (Table.ofGrammar grammar).rules.start =
        some [.branch grammar.start children] := found
  simp only [Table.parseTokens, covered, if_true, read]

/-- A parse keeps the input and is what is read for the start node on all tokens. -/
theorem whole_of_parseTokens {input : String} {parse : Parse}
    (parsed : (Table.ofGrammar grammar).parseTokens input tokens = .ok parse) :
    parse.input = input ∧
      ((Table.ofGrammar grammar).reading tokens).whole (Rules.ofGrammar grammar).start =
        some [parse.root] := by
  unfold Table.parseTokens at parsed
  simp only at parsed
  split at parsed
  · split at parsed
    · next found =>
      cases parsed
      exact ⟨rfl, found⟩
    · cases parsed
  · cases parsed

/-- A parse is a branch of the start node that the grammar admits, over the tokens in order. -/
theorem derivation_of_parseTokens (closed : grammar.isClosed = true)
    (bounded : grammar.isBounded = true) {input : String} {parse : Parse}
    (parsed : (Table.ofGrammar grammar).parseTokens input tokens = .ok parse) :
    ∃ children, parse = ⟨input, grammar.start, children⟩ ∧
      grammar.Admits (.branch grammar.start children) ∧
      (leavesOf children).map (fun leaf => (leaf.text, leaf.index)) = tokens.zipIdx := by
  obtain ⟨rfl, found⟩ := whole_of_parseTokens parsed
  obtain ⟨children, same, derivation⟩ := Reading.whole_sound closed bounded found
  obtain ⟨rule, own⟩ := Tree.branch.inj (List.cons.inj same).1
  exact ⟨children, by rw [← rule, ← own], derivation⟩

/-- Trees whose leaves are tokens in their places have these tokens. -/
theorem tokensOf_of_leaves {trees : List Tree}
    (leaves : (leavesOf trees).map (fun leaf => (leaf.text, leaf.index)) = tokens.zipIdx) :
    tokensOf trees = tokens := by
  have texts := congrArg (List.map Prod.fst) leaves
  rwa [List.map_map, List.zipIdx_map_fst] at texts

/-- Tokens with a parse are derived by the start node: the parse is a derivation of them. -/
theorem accepts_of_parseTokens (closed : grammar.isClosed = true)
    (bounded : grammar.isBounded = true) {input : String} {parse : Parse}
    (parsed : (Table.ofGrammar grammar).parseTokens input tokens = .ok parse) :
    grammar.Accepts tokens := by
  obtain ⟨children, _, admitted, leaves⟩ := derivation_of_parseTokens closed bounded parsed
  have derived := admitted.derives
  rwa [tokensOf_of_leaves leaves] at derived

/-- Tokens have a parse exactly if the start node derives them. -/
theorem parses_iff_accepts (closed : grammar.isClosed = true) (bounded : grammar.isBounded = true)
    {input : String} :
    (∃ parse, (Table.ofGrammar grammar).parseTokens input tokens = .ok parse) ↔
      grammar.Accepts tokens := by
  constructor
  · rintro ⟨parse, parsed⟩
    exact accepts_of_parseTokens closed bounded parsed
  · intro accepts
    obtain ⟨children, parsed, _⟩ := parseTokens_of_accepts closed bounded input accepts
    exact ⟨_, parsed⟩

/-- Tokens have a parse exactly if the start node derives them. A chart that covers the tokens
always has a tree to read, so nothing is refused after that. Compiled grammars are among the
grammars for which this holds, unless a sum of counts wraps around at 32 bits. Even then tokens
have a parse exactly if the grammar as it is read derives them. -/
theorem recognition_exact :
    (∀ grammar : Grammar, grammar.isClosed = true → grammar.isBounded = true →
      ∀ (input : String) (tokens : List String),
        ((∃ parse, (Table.ofGrammar grammar).parseTokens input tokens = .ok parse) ↔
          grammar.Accepts tokens) ∧
        ((Chart.ofTokens (Table.ofGrammar grammar) tokens).covers
            (Table.ofGrammar grammar).rules.start 0 tokens.length = true →
          ∃ children, (Reading.mk (Table.ofGrammar grammar).rules tokens.toArray
              (Chart.ofTokens (Table.ofGrammar grammar) tokens)).whole
                (Table.ofGrammar grammar).rules.start = some [.branch grammar.start children])) ∧
      ∀ (schema : Command) (model : Model) (mode : RequiredParams),
        Model.ofSchema schema = .ok model →
          (model.grammar mode).isClosed = true ∧
          (model.sumsFit = true → (model.grammar mode).isBounded = true) ∧
          ∀ (input : String) (tokens : List String),
            (∃ parse, (Table.ofGrammar (model.grammar mode)).parseTokens input tokens = .ok parse) ↔
              (model.readGrammar mode).Accepts tokens := by
  refine ⟨fun grammar closed bounded input tokens => ⟨?_, ?_⟩, ?_⟩
  · exact parses_iff_accepts closed bounded
  · intro covers
    obtain ⟨children, found, _⟩ := whole_eq_some closed bounded covers
    exact ⟨children, found⟩
  · intro schema model mode made
    refine ⟨Model.grammar_isClosed made mode, fun fits => Model.grammar_isBounded fits mode,
      fun input tokens => ?_⟩
    rw [Model.table_readGrammar]
    exact parses_iff_accepts (Model.readGrammar_isClosed made mode)
      (Model.readGrammar_isBounded model mode)

/-- A grammar that is left-recursive, cyclic, ambiguous and nullable: its start node derives any
number of one token. -/
def tangled : Grammar where
  productions := [
    ⟨0, "start", .alt [.seq [.rule 0, .rule 0], .rule 1, .optional (.literal "a")]⟩,
    ⟨1, "again", .repetition (.rule 0) 0 none⟩]
  start := 0

/-- The tangled grammar derives two tokens. -/
theorem tangled_accepts : tangled.Accepts ["a", "a"] := by
  have one : tangled.Derives (.rule 0) ["a"] :=
    .rule rfl (.alt (.tail _ (.tail _ (.head _))) (.present (.literal "a")))
  exact .rule rfl (.alt (.head _) (.seqCons one (.seqCons one .seqNil)))

/-- Two tokens of the tangled grammar have a parse, since they are derived. -/
theorem tangled_recognised :
    tangled.isClosed = true ∧ tangled.isBounded = true ∧
      ∃ parse, (Table.ofGrammar tangled).parseTokens "a a" ["a", "a"] = .ok parse := by
  have exact := recognition_exact.1 tangled (by decide) (by decide) "a a" ["a", "a"]
  exact ⟨by decide, by decide, exact.1.2 tangled_accepts⟩

/-- A parse is a derivation of its tokens by the start node: the children of every branch match the
production of its rule, and the leaves are the tokens in their order, each once and in its place. -/
theorem parse_is_derivation (closed : grammar.isClosed = true) (bounded : grammar.isBounded = true)
    {input : String} {parse : Parse}
    (parsed : (Table.ofGrammar grammar).parseTokens input tokens = .ok parse) :
    parse.rule = grammar.start ∧ grammar.Admits parse.root ∧
      parse.root.leaves.map (fun leaf => (leaf.text, leaf.index)) = tokens.zipIdx := by
  obtain ⟨children, rfl, admitted, leaves⟩ := derivation_of_parseTokens closed bounded parsed
  exact ⟨rfl, admitted, leaves⟩

/-- The parse of two tokens of the tangled grammar is a derivation with both of them as leaves. -/
theorem tangled_derivation :
    ∃ parse, (Table.ofGrammar tangled).parseTokens "a a" ["a", "a"] = .ok parse ∧
      parse.rule = 0 ∧ tangled.Admits parse.root ∧
        parse.root.leaves.map (fun leaf => (leaf.text, leaf.index)) = [("a", 0), ("a", 1)] := by
  obtain ⟨children, parsed, _⟩ :=
    parseTokens_of_accepts (by decide) (by decide) "a a" tangled_accepts
  exact ⟨_, parsed, parse_is_derivation (by decide) (by decide) parsed⟩

end Grammar

end CommandGrammar
