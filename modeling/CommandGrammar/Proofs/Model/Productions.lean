import Mathlib
import CommandGrammar.Grammar.Compile
import CommandGrammar.Grammar.Language
import CommandGrammar.Tree.Derivation
import CommandGrammar.Proofs.Model.Compiled
import CommandGrammar.Proofs.Options.Chunks

/-!
# What commands and options derive

An option derives one of its triggers and a value, with or without an equals sign between
them. A command derives its name and what its parameters derive, in any order; their
number is bounded only where every count is fixed. In a parse tree the same holds
of the leaves and branches under a node.
-/

namespace CommandGrammar

/-- The bounds allow a number. -/
def Within (bounds : Nat × Option Nat) (count : Nat) : Prop :=
  bounds.1 ≤ count ∧ ∀ most ∈ bounds.2, count ≤ most

/-- What matches a choice matches one of its items. -/
theorem matches_choice {items : List Expr} {trees : List Tree}
    (matched : (Expr.choice items).Matches trees) : ∃ item ∈ items, item.Matches trees := by
  unfold Expr.choice at matched
  split at matched
  · exact ⟨_, List.mem_cons_self, matched⟩
  · cases matched with
    | alt member chosen => exact ⟨_, member, chosen⟩

/-- What matches a choice of rules is a branch of one of them. -/
theorem matches_rules {ids : List NodeId} {trees : List Tree}
    (matched : (Expr.choice (ids.map .rule)).Matches trees) :
    ∃ id ∈ ids, ∃ children, trees = [.branch id children] := by
  obtain ⟨item, member, chosen⟩ := matches_choice matched
  obtain ⟨id, known, rfl⟩ := List.mem_map.1 member
  cases chosen
  exact ⟨id, known, _, rfl⟩

namespace Model

variable {model : Model} {mode : RequiredParams} {grammar : Grammar}

/-- An option derives each of its triggers with each value. -/
theorem derives_flagExpr {triggers : List String} {chunk : Chunk}
    (known : chunk.trigger ∈ triggers) :
    grammar.Derives (flagExpr triggers true) chunk.tokens := by
  refine Grammar.derives_choice_iff.2 ⟨_, List.mem_map_of_mem known, ?_⟩
  obtain ⟨trigger, sign, text⟩ := chunk
  cases sign with
  | true =>
    exact .seqCons (.literal trigger)
      (.seqCons (.present (.literal "=")) (.seqCons (.value text) .seqNil))
  | false =>
    exact .seqCons (.literal trigger) (.seqCons (.absent _) (.seqCons (.value text) .seqNil))

/-- What matches an option are leaves: one of its triggers, perhaps an equals sign, and a value. -/
theorem matches_option {triggers : List String} {trees : List Tree}
    (matched : (flagExpr triggers true).Matches trees) :
    ∃ trigger ∈ triggers, ∃ text first last,
      trees = [.leaf ⟨.literal, trigger, first⟩, .leaf ⟨.value, text, last⟩] ∨
      ∃ sign, trees = [.leaf ⟨.literal, trigger, first⟩, .leaf ⟨.literal, "=", sign⟩,
        .leaf ⟨.value, text, last⟩] := by
  obtain ⟨item, member, chosen⟩ := matches_choice matched
  obtain ⟨trigger, known, rfl⟩ := List.mem_map.1 member
  rw [if_pos rfl] at chosen
  cases chosen with
  | seqCons head tail =>
    cases head with
    | literal _ first =>
      cases tail with
      | seqCons between tail =>
        cases tail with
        | seqCons value done =>
          cases value with
          | value text last =>
            cases done
            cases between with
            | absent => exact ⟨trigger, known, text, first, last, .inl rfl⟩
            | present sign =>
              cases sign with
              | literal _ sign => exact ⟨trigger, known, text, first, last, .inr ⟨sign, rfl⟩⟩

/-- What matches an option is one of its triggers with a value. -/
theorem matches_flagExpr {triggers : List String} {trees : List Tree}
    (matched : (flagExpr triggers true).Matches trees) :
    ∃ chunk : Chunk, chunk.trigger ∈ triggers ∧ tokensOf trees = chunk.tokens ∧
      firstValue? trees = some chunk.text := by
  obtain ⟨trigger, known, text, _, _, rfl | ⟨_, rfl⟩⟩ := matches_option matched
  · exact ⟨⟨trigger, false, text⟩, known, rfl, rfl⟩
  · exact ⟨⟨trigger, true, text⟩, known, rfl, rfl⟩

/-- Without parameters none may be given. -/
theorem readBounds_of_isEmpty {command : Node} (none_declared : command.params.isEmpty = true) :
    model.readBounds mode command = (0, some 0) := by
  simp [readBounds, leveledBounds, paramBounds, maxParams, minParams, fixedCounts?, nodesOf,
    List.isEmpty_iff.1 none_declared, wrappingSum]

/-- A command may have any number of parameters if some count is open, and otherwise any one between
the least number and the greatest one, or the least one if this is greater. -/
theorem within_readBounds_iff {command : Node} {count : Nat} :
    Within (model.readBounds mode command) count ↔
      ∀ most, model.maxParams command = some most → model.minParams mode command ≤ count ∧
        count ≤ max (model.minParams mode command) most := by
  unfold Within readBounds leveledBounds paramBounds
  cases model.maxParams command <;> simp

/-- A command derives its name and what its parameters derive, as many as its bounds allow. -/
theorem derives_commandExpr {command : Node} {parts : List (List String)}
    (each : ∀ part ∈ parts, ∃ id ∈ command.params, grammar.Derives (.rule id) part)
    (within : Within (model.readBounds mode command) parts.length) :
    grammar.Derives (commandExpr (model.readBounds mode command) command)
      (command.name :: parts.flatten) := by
  unfold commandExpr
  split
  · next none_declared =>
    rw [readBounds_of_isEmpty none_declared] at within
    obtain rfl : parts = [] := List.length_eq_zero_iff.1 (Nat.le_zero.1 (within.2 0 rfl))
    exact .literal command.name
  · have items : ∀ part ∈ parts,
        grammar.Derives (Expr.choice (command.params.map .rule)) part := by
      intro part member
      obtain ⟨id, known, derived⟩ := each part member
      exact Grammar.derives_choice_iff.2 ⟨_, List.mem_map_of_mem known, derived⟩
    have line := Grammar.Derives.seqCons (.literal command.name)
      (.seqCons (.repetition parts within.1 within.2 items) .seqNil)
    simpa using line

/-- Trees in groups of one are as many as the groups. -/
theorem length_flatten_of_rules {ids : List NodeId} {parts : List (List Tree)}
    (each : ∀ part ∈ parts, (Expr.choice (ids.map .rule)).Matches part) :
    parts.flatten.length = parts.length := by
  induction parts with
  | nil => rfl
  | cons part rest ih =>
    obtain ⟨_, _, children, rfl⟩ := matches_rules (each part List.mem_cons_self)
    have later := ih fun other member => each other (List.mem_cons_of_mem _ member)
    rw [List.flatten_cons, List.length_append, later, List.length_singleton, List.length_cons,
      Nat.add_comm]

/-- What matches a command is its name and branches of its parameters, as many as its bounds
allow. -/
theorem matches_commandExpr {command : Node} {trees : List Tree}
    (matched : (commandExpr (model.readBounds mode command) command).Matches trees) :
    ∃ index branches, trees = .leaf ⟨.literal, command.name, index⟩ :: branches ∧
      (∀ tree ∈ branches, ∃ id ∈ command.params, ∃ children, tree = .branch id children) ∧
      Within (model.readBounds mode command) branches.length := by
  unfold commandExpr at matched
  split at matched
  · next none_declared =>
    cases matched with
    | literal _ index =>
      refine ⟨index, [], rfl, by simp, ?_⟩
      rw [readBounds_of_isEmpty none_declared]
      exact ⟨Nat.le_refl 0, fun _ _ => Nat.zero_le _⟩
  · cases matched with
    | seqCons head tail =>
      cases head with
      | literal _ index =>
        cases tail with
        | seqCons items last =>
          cases last
          cases items with
          | repetition parts least greatest each =>
            refine ⟨index, parts.flatten, by rw [List.append_nil]; rfl, fun tree member => ?_, ?_⟩
            · obtain ⟨part, listed, inside⟩ := List.mem_flatten.1 member
              obtain ⟨id, known, children, rfl⟩ := matches_rules (each part listed)
              exact ⟨id, known, children, List.mem_singleton.1 inside⟩
            · rw [length_flatten_of_rules each]
              exact ⟨least, greatest⟩

end Model

end CommandGrammar
