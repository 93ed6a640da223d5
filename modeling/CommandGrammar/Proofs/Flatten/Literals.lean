import Mathlib
import CommandGrammar.Chart

/-!
# Literals of flat rules

Flattening makes nonterminals and no literals: each literal of the flat rules stands in the
expression of a production. So the triggers at which a joined word is cut are literals of
the grammar that begin with a dash.
-/

namespace CommandGrammar

mutual

/-- The literals of an expression. -/
def Expr.literals : Expr → List String
  | .literal text => [text]
  | .value | .rule _ => []
  | .seq items | .alt items => literalsOf items
  | .optional inner => inner.literals
  | .repetition inner _ _ => inner.literals

/-- The literals of several expressions. -/
def literalsOf : List Expr → List String
  | [] => []
  | item :: rest => item.literals ++ literalsOf rest

end

/-- The literals of a choice are those of its items. -/
theorem literals_choice (items : List Expr) : (Expr.choice items).literals = literalsOf items := by
  unfold Expr.choice
  split
  · simp [literalsOf]
  · rfl

namespace Flatten

variable {rule : NodeId → Nat} {next : Nat} {texts : List String}

/-- The literals among symbols are some of the texts. -/
def Draws (texts : List String) (symbols : List Symbol) : Prop :=
  ∀ text, .literal text ∈ symbols → text ∈ texts

/-- The literals of all alternatives are some of the texts. -/
def DrawsAll (texts : List String) (alternatives : List (List Symbol)) : Prop :=
  Draws texts alternatives.flatten

/-- The literals of all nonterminals are some of the texts. -/
def DrawsIn (texts : List String) (nonterminals : List Nonterminal) : Prop :=
  ∀ nonterminal ∈ nonterminals, DrawsAll texts nonterminal.alternatives

/-- Symbols draw from texts exactly if those of both parts do. -/
theorem draws_append_iff {first others : List Symbol} :
    Draws texts (first ++ others) ↔ Draws texts first ∧ Draws texts others := by
  simp only [Draws, List.mem_append, or_imp, forall_and]

/-- Nonterminals draw from texts exactly if those of both parts do. -/
theorem drawsIn_append_iff {first others : List Nonterminal} :
    DrawsIn texts (first ++ others) ↔ DrawsIn texts first ∧ DrawsIn texts others :=
  List.forall_mem_append

/-- Nonterminals draw from texts exactly if the first one and the others do. -/
theorem drawsIn_cons_iff {first : Nonterminal} {others : List Nonterminal} :
    DrawsIn texts (first :: others) ↔
      DrawsAll texts first.alternatives ∧ DrawsIn texts others :=
  List.forall_mem_cons

/-- A nonterminal is no literal. -/
theorem draws_nonterminal (index : Nat) : Draws texts [.nonterminal index] := by
  simp [Draws]

/-- A new nonterminal draws from the texts that its alternatives draw from. -/
theorem draws_auxiliary {made : Made (List (List Symbol))}
    (draws : DrawsAll texts made.1 ∧ DrawsIn texts made.2) :
    Draws texts [(auxiliary next made).1] ∧ DrawsIn texts (auxiliary next made).2 :=
  ⟨draws_nonterminal next, drawsIn_cons_iff.2 draws⟩

/-- An empty alternative draws nothing. -/
theorem draws_orEmpty {made : Made (List (List Symbol))}
    (draws : DrawsAll texts made.1 ∧ DrawsIn texts made.2) :
    DrawsAll texts (orEmpty made).1 ∧ DrawsIn texts (orEmpty made).2 := by
  refine ⟨?_, draws.2⟩
  simpa [orEmpty, DrawsAll] using draws.1

/-- The only alternative draws from the texts that its symbols draw from. -/
theorem draws_only {made : Made (List Symbol)}
    (draws : Draws texts made.1 ∧ DrawsIn texts made.2) :
    DrawsAll texts (only made).1 ∧ DrawsIn texts (only made).2 := by
  refine ⟨?_, draws.2⟩
  simpa [only, DrawsAll] using draws.1

/-- The star of an item draws from the texts that the item draws from. -/
theorem draws_starTail {number : Nat} {item : Symbol} (draws : Draws texts [item]) :
    Draws texts [(starTail number item).1] ∧ DrawsIn texts (starTail number item).2 := by
  refine ⟨draws_nonterminal number, drawsIn_cons_iff.2 ⟨?_, by simp [DrawsIn]⟩⟩
  simpa [DrawsAll, Draws] using draws

/-- A chain of optional items draws from the texts that the item draws from. -/
theorem draws_chainTail {number links : Nat} {item : Symbol} (draws : Draws texts [item]) :
    Draws texts [(chainTail number item links).1] ∧
      DrawsIn texts (chainTail number item links).2 := by
  refine ⟨draws_nonterminal _, drawsIn_cons_iff.2 ⟨by simp [DrawsAll, Draws], ?_⟩⟩
  intro nonterminal member
  obtain ⟨link, _, rfl⟩ := List.mem_map.1 member
  simpa [DrawsAll, Draws] using draws

/-- A repetition draws from the texts that its item draws from. -/
theorem draws_repeated {min : Nat} {max : Option Nat} {item : Made Symbol}
    (draws : Draws texts [item.1] ∧ DrawsIn texts item.2) :
    Draws texts [(repeated next min max item).1] ∧ DrawsIn texts (repeated next min max item).2 := by
  have repeats : Draws texts (List.replicate min item.1) := by
    intro text member
    exact draws.1 text (List.mem_singleton.2 (List.mem_replicate.1 member).2)
  have front {tail : Made Symbol} (last : Draws texts [tail.1] ∧ DrawsIn texts tail.2) :
      DrawsIn texts (⟨.auxiliary, [List.replicate min item.1 ++ [tail.1]]⟩ :: item.2 ++ tail.2) := by
    refine drawsIn_cons_iff.2 ⟨?_, drawsIn_append_iff.2 ⟨draws.2, last.2⟩⟩
    have both := draws_append_iff.2 ⟨repeats, last.1⟩
    simpa [DrawsAll] using both
  refine ⟨draws_nonterminal next, ?_⟩
  cases max with
  | none => exact front (draws_starTail draws.1)
  | some max => exact front (draws_chainTail draws.1)

mutual

/-- The symbol of an expression draws from its literals, and so do its nonterminals. -/
theorem draws_symbol (expr : Expr) (next : Nat) (within : expr.literals ⊆ texts) :
    Draws texts [(symbol rule next expr).1] ∧ DrawsIn texts (symbol rule next expr).2 := by
  cases expr with
  | literal text =>
    have known : text ∈ texts := within (List.mem_singleton_self _)
    simpa [symbol, Draws, DrawsIn] using known
  | value => simp [symbol, Draws, DrawsIn]
  | rule id => simp [symbol, Draws, DrawsIn]
  | seq items => exact draws_auxiliary (draws_only (draws_sequences items (next + 1) within))
  | alt items => exact draws_auxiliary (draws_sequences items (next + 1) within)
  | optional inner =>
    exact draws_auxiliary (draws_orEmpty (draws_alternatives inner (next + 1) within))
  | repetition inner min max => exact draws_repeated (draws_symbol inner (next + 1) within)

/-- The symbols of an expression draw from its literals, and so do its nonterminals. -/
theorem draws_sequence (expr : Expr) (next : Nat) (within : expr.literals ⊆ texts) :
    Draws texts (sequence rule next expr).1 ∧ DrawsIn texts (sequence rule next expr).2 := by
  cases expr with
  | literal text =>
    have known : text ∈ texts := within (List.mem_singleton_self _)
    simpa [sequence, Draws, DrawsIn] using known
  | value => simp [sequence, Draws, DrawsIn]
  | rule id => simp [sequence, Draws, DrawsIn]
  | seq items => exact draws_sequences items next within
  | alt items => exact draws_auxiliary (draws_sequences items (next + 1) within)
  | optional inner =>
    exact draws_auxiliary (draws_orEmpty (draws_alternatives inner (next + 1) within))
  | repetition inner min max => exact draws_repeated (draws_symbol inner (next + 1) within)

/-- The alternatives of an expression draw from its literals, and so do its nonterminals. -/
theorem draws_alternatives (expr : Expr) (next : Nat) (within : expr.literals ⊆ texts) :
    DrawsAll texts (alternatives rule next expr).1 ∧
      DrawsIn texts (alternatives rule next expr).2 := by
  cases expr with
  | literal text =>
    have known : text ∈ texts := within (List.mem_singleton_self _)
    simpa [alternatives, DrawsAll, Draws, DrawsIn] using known
  | value => simp [alternatives, DrawsAll, Draws, DrawsIn]
  | rule id => simp [alternatives, DrawsAll, Draws, DrawsIn]
  | seq items => exact draws_only (draws_sequences items next within)
  | alt items => exact draws_sequences items next within
  | optional inner => exact draws_orEmpty (draws_alternatives inner next within)
  | repetition inner min max =>
    exact draws_only (draws_repeated (draws_symbol inner (next + 1) within))

/-- The symbols of several expressions draw from their literals, and so do their nonterminals. -/
theorem draws_sequences (items : List Expr) (next : Nat) (within : literalsOf items ⊆ texts) :
    DrawsAll texts (sequences rule next items).1 ∧ DrawsIn texts (sequences rule next items).2 := by
  cases items with
  | nil => simp [sequences, DrawsAll, Draws, DrawsIn]
  | cons item rest =>
    rw [literalsOf, List.append_subset] at within
    obtain ⟨own, inner⟩ := draws_sequence item next within.1
    obtain ⟨more, others⟩ :=
      draws_sequences rest (next + (sequence rule next item).2.length) within.2
    exact ⟨draws_append_iff.2 ⟨own, more⟩, drawsIn_append_iff.2 ⟨inner, others⟩⟩

end

/-- The nonterminals of productions draw from the literals of their expressions. -/
theorem draws_productions {productions : List Production}
    (within : ∀ production ∈ productions, production.expr.literals ⊆ texts) :
    DrawsIn texts (Flatten.productions rule next productions).1 ∧
      DrawsIn texts (Flatten.productions rule next productions).2 := by
  induction productions generalizing next with
  | nil => simp [Flatten.productions, DrawsIn]
  | cons production rest ih =>
    obtain ⟨own, inner⟩ :=
      draws_alternatives production.expr next (within production List.mem_cons_self)
    obtain ⟨more, others⟩ := @ih (next + (alternatives rule next production.expr).2.length)
      fun other member => within other (List.mem_cons_of_mem _ member)
    exact ⟨drawsIn_cons_iff.2 ⟨own, more⟩, drawsIn_append_iff.2 ⟨inner, others⟩⟩

end Flatten

/-- A trigger of a grammar is a literal of one of its productions, with a dash in front. -/
theorem Grammar.mem_triggers {grammar : Grammar} {trigger : String}
    (member : trigger ∈ (Table.ofGrammar grammar).triggers) :
    trigger.toList.head? = some '-' ∧
      ∃ production ∈ grammar.productions, trigger ∈ production.expr.literals := by
  have texts : ∀ production ∈ grammar.productions,
      production.expr.literals ⊆ grammar.productions.flatMap (·.expr.literals) :=
    fun production listed text inside => List.mem_flatMap.2 ⟨production, listed, inside⟩
  have draws := @Flatten.draws_productions (fun id => grammar.ids.idxOf id) grammar.size _ _ texts
  obtain ⟨symbol, listed, same⟩ := List.mem_filterMap.1 member
  obtain ⟨nonterminal, made, inside⟩ := List.mem_flatMap.1 listed
  cases symbol with
  | literal text =>
    simp only [Option.ite_none_right_eq_some, Option.some.injEq] at same
    obtain ⟨dash, rfl⟩ := same
    have known := Flatten.drawsIn_append_iff.2 draws nonterminal made text inside
    exact ⟨dash, List.mem_flatMap.1 known⟩
  | value | nonterminal => cases same

end CommandGrammar
