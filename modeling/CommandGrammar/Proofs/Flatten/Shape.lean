import Mathlib
import CommandGrammar.Proofs.Flatten.Meaning
import CommandGrammar.Proofs.Reading.Cycles

/-!
# The shape of flat rules

Flattening makes stars only as the tails of repetitions, never as the items of other
stars, and names a node only by the nonterminal of its production. Every nonterminal of
the flat rules of a grammar is made either for a production or for a part of one.
-/

namespace CommandGrammar

namespace Rules

/-- A symbol that stands for a node only as the nonterminal of one of some nodes. -/
def IsProper (rules : Rules) (rule : NodeId → Nat) (ids : List NodeId) (symbol : Symbol) : Prop :=
  ∀ index, symbol = .nonterminal index →
    (∃ id ∈ ids, index = rule id) ∨ ∀ id, rules.label index ≠ .named id

/-- Such a symbol that is no star. -/
def IsPlain (rules : Rules) (rule : NodeId → Nat) (ids : List NodeId) (symbol : Symbol) : Prop :=
  rules.IsProper rule ids symbol ∧
    ∀ index item, symbol = .nonterminal index → rules.label index ≠ .star item

/-- A nonterminal as flattening makes them. -/
structure Shaped (rules : Rules) (rule : NodeId → Nat) (ids : List NodeId) (index : Nat)
    (nonterminal : Nonterminal) : Prop where
  /-- A star derives itself and a plain item, or nothing. -/
  star : ∀ item, nonterminal.label = .star item →
    nonterminal.alternatives = [[.nonterminal index, item], []] ∧ rules.IsPlain rule ids item
  /-- All symbols stand for nodes only as nonterminals of some nodes. -/
  proper : ∀ alternative ∈ nonterminal.alternatives, ∀ symbol ∈ alternative,
    rules.IsProper rule ids symbol

/-- Lists of plain symbols. -/
def ArePlain (rules : Rules) (rule : NodeId → Nat) (ids : List NodeId)
    (alternatives : List (List Symbol)) : Prop :=
  ∀ alternative ∈ alternatives, ∀ symbol ∈ alternative, rules.IsPlain rule ids symbol

variable {rules : Rules} {rule : NodeId → Nat} {ids : List NodeId}

/-- The nonterminal of a nested expression is plain. -/
theorem isPlain_of_auxiliary {index : Nat} (label : rules.label index = .auxiliary) :
    rules.IsPlain rule ids (.nonterminal index) := by
  constructor
  · rintro _ ⟨⟩
    exact .inr (by simp [label])
  · rintro _ item ⟨⟩
    simp [label]

/-- Terminals are plain. -/
theorem isPlain_of_terminal {symbol : Symbol} (terminal : ∀ index, symbol ≠ .nonterminal index) :
    rules.IsPlain rule ids symbol :=
  ⟨fun index same => absurd same (terminal index), fun index _ same => absurd same (terminal index)⟩

/-- The nonterminal of a node is plain. -/
theorem isPlain_of_mem (resolves : rules.Resolves rule ids) {id : NodeId} (member : id ∈ ids) :
    rules.IsPlain rule ids (.nonterminal (rule id)) := by
  constructor
  · rintro _ ⟨⟩
    exact .inl ⟨id, member, rfl⟩
  · rintro _ item ⟨⟩
    simp [resolves id member]

/-- A nested expression with plain alternatives has the shape. -/
theorem shaped_of_plain {index : Nat} {alternatives : List (List Symbol)}
    (plain : rules.ArePlain rule ids alternatives) :
    rules.Shaped rule ids index ⟨.auxiliary, alternatives⟩ :=
  ⟨by simp, fun alternative member symbol inside => (plain alternative member symbol inside).1⟩

/-- A new nonterminal with plain alternatives is plain and has the shape. -/
theorem auxiliary_shaped {next : Nat} {made : Flatten.Made (List (List Symbol))}
    (placed : Placed rules.Has next (Flatten.auxiliary next made).2)
    (plain : rules.ArePlain rule ids made.1)
    (shaped : Placed (rules.Shaped rule ids) (next + 1) made.2) :
    rules.IsPlain rule ids (Flatten.auxiliary next made).1 ∧
      Placed (rules.Shaped rule ids) next (Flatten.auxiliary next made).2 := by
  have has := (placed_cons_iff.1 placed).1
  exact ⟨isPlain_of_auxiliary has.label, placed_cons_iff.2 ⟨shaped_of_plain plain, shaped⟩⟩

/-- The tail of a repetition stands for no node, and its nonterminals have the shape. -/
theorem tail_shaped {number min : Nat} {max : Option Nat} {item : Symbol}
    {tail : Flatten.Made Symbol}
    (made : tail = match max with
      | none => Flatten.starTail number item
      | some max => Flatten.chainTail number item (max - min))
    (placed : Placed rules.Has number tail.2) (plain : rules.IsPlain rule ids item) :
    rules.IsProper rule ids tail.1 ∧ Placed (rules.Shaped rule ids) number tail.2 := by
  cases max with
  | none =>
    subst made
    have has := (placed_cons_iff.1 placed).1
    have proper : rules.IsProper rule ids (.nonterminal number) := by
      rintro _ ⟨⟩
      exact .inr (by simp [has.label])
    refine ⟨proper, placed_cons_iff.2 ⟨⟨?_, ?_⟩, placed_nil⟩⟩
    · rintro _ ⟨⟩
      exact ⟨rfl, plain⟩
    · simpa using ⟨proper, plain.1⟩
  | some max =>
    subst made
    have links : ∀ link ≤ max - min, rules.IsPlain rule ids (.nonterminal (number + link)) :=
      fun link inside => isPlain_of_auxiliary (label_link placed inside)
    refine ⟨(links _ (Nat.le_refl _)).1, placed_cons_iff.2 ⟨shaped_of_plain ?_, ?_⟩⟩
    · simp [ArePlain]
    · intro link nonterminal found
      rw [List.getElem?_map, Option.map_eq_some_iff] at found
      obtain ⟨place, below, rfl⟩ := found
      obtain ⟨inside, rfl⟩ := List.getElem?_eq_some_iff.1 below
      rw [List.length_range] at inside
      apply shaped_of_plain
      simpa [ArePlain] using ⟨plain, links _ (Nat.le_of_lt inside)⟩

/-- A repetition of a plain item is plain and has the shape. -/
theorem repeated_shaped {next min : Nat} {max : Option Nat} {item : Flatten.Made Symbol}
    (placed : Placed rules.Has next (Flatten.repeated next min max item).2)
    (made : Placed rules.Has (next + 1) item.2 →
      rules.IsPlain rule ids item.1 ∧ Placed (rules.Shaped rule ids) (next + 1) item.2) :
    rules.IsPlain rule ids (Flatten.repeated next min max item).1 ∧
      Placed (rules.Shaped rule ids) next (Flatten.repeated next min max item).2 := by
  obtain ⟨has, others⟩ := placed_cons_iff.1 placed
  obtain ⟨inner, ends⟩ := placed_append_iff.1 others
  obtain ⟨plain, shaped⟩ := made inner
  obtain ⟨proper, tail⟩ := tail_shaped rfl ends plain
  refine ⟨isPlain_of_auxiliary has.label,
    placed_cons_iff.2 ⟨⟨by simp, ?_⟩, placed_append_iff.2 ⟨shaped, tail⟩⟩⟩
  intro alternative member symbol inside
  obtain rfl := List.mem_singleton.1 member
  rcases List.mem_append.1 inside with repeats | last
  · obtain rfl := (List.mem_replicate.1 repeats).2
    exact plain.1
  · obtain rfl := List.mem_singleton.1 last
    exact proper

section

variable {property : Symbol → Prop}

/-- The symbols of an only list have a property if those of the list do. -/
theorem forall_only {symbols : List Symbol} (each : ∀ symbol ∈ symbols, property symbol) :
    ∀ alternative ∈ [symbols], ∀ symbol ∈ alternative, property symbol := by
  rintro _ member
  obtain rfl := List.mem_singleton.1 member
  exact each

/-- An only symbol has the property that it has. -/
theorem forall_single {symbol : Symbol} (holds : property symbol) :
    ∀ other ∈ [symbol], property other := by
  rintro _ member
  obtain rfl := List.mem_singleton.1 member
  exact holds

/-- The empty list of symbols may follow others. -/
theorem forall_orEmpty {made : Flatten.Made (List (List Symbol))}
    (each : ∀ alternative ∈ made.1, ∀ symbol ∈ alternative, property symbol) :
    ∀ alternative ∈ (Flatten.orEmpty made).1, ∀ symbol ∈ alternative, property symbol := by
  intro alternative member
  rcases List.mem_append.1 member with old | empty
  · exact each alternative old
  · obtain rfl := List.mem_singleton.1 empty
    simp

/-- The symbols of lists that are joined are those of the lists. -/
theorem forall_flatten {parts : List (List Symbol)}
    (each : ∀ part ∈ parts, ∀ symbol ∈ part, property symbol) :
    ∀ symbol ∈ parts.flatten, property symbol := by
  intro symbol member
  obtain ⟨part, listed, inside⟩ := List.mem_flatten.1 member
  exact each part listed symbol inside

end

mutual

/-- The symbol of an expression is plain, and its nonterminals have the shape. -/
theorem symbol_shaped (resolves : rules.Resolves rule ids) (expr : Expr) (next : Nat)
    (within : expr.references ⊆ ids)
    (placed : Placed rules.Has next (Flatten.symbol rule next expr).2) :
    rules.IsPlain rule ids (Flatten.symbol rule next expr).1 ∧
      Placed (rules.Shaped rule ids) next (Flatten.symbol rule next expr).2 := by
  cases expr with
  | literal text => exact ⟨isPlain_of_terminal (by simp [Flatten.symbol]), placed_nil⟩
  | value => exact ⟨isPlain_of_terminal (by simp [Flatten.symbol]), placed_nil⟩
  | rule id => exact ⟨isPlain_of_mem resolves (within (List.mem_singleton_self _)), placed_nil⟩
  | seq items =>
    have inner := sequences_shaped resolves items (next + 1) within (placed_cons_iff.1 placed).2
    exact auxiliary_shaped placed (forall_only (forall_flatten inner.1)) inner.2
  | alt items =>
    have inner := sequences_shaped resolves items (next + 1) within (placed_cons_iff.1 placed).2
    exact auxiliary_shaped placed inner.1 inner.2
  | optional inner =>
    have inner := alternatives_shaped resolves inner (next + 1) within (placed_cons_iff.1 placed).2
    exact auxiliary_shaped placed (forall_orEmpty inner.1) inner.2
  | repetition inner min max =>
    exact repeated_shaped placed fun made => symbol_shaped resolves inner (next + 1) within made

/-- The symbols of an expression are plain, and its nonterminals have the shape. -/
theorem sequence_shaped (resolves : rules.Resolves rule ids) (expr : Expr) (next : Nat)
    (within : expr.references ⊆ ids)
    (placed : Placed rules.Has next (Flatten.sequence rule next expr).2) :
    (∀ symbol ∈ (Flatten.sequence rule next expr).1, rules.IsPlain rule ids symbol) ∧
      Placed (rules.Shaped rule ids) next (Flatten.sequence rule next expr).2 := by
  cases expr with
  | literal text => exact ⟨forall_single (isPlain_of_terminal (by simp)), placed_nil⟩
  | value => exact ⟨forall_single (isPlain_of_terminal (by simp)), placed_nil⟩
  | rule id =>
    exact ⟨forall_single (isPlain_of_mem resolves (within (List.mem_singleton_self _))),
      placed_nil⟩
  | seq items =>
    have inner := sequences_shaped resolves items next within placed
    exact ⟨forall_flatten inner.1, inner.2⟩
  | alt items =>
    have inner := sequences_shaped resolves items (next + 1) within (placed_cons_iff.1 placed).2
    exact (auxiliary_shaped placed inner.1 inner.2).imp_left forall_single
  | optional inner =>
    have inner := alternatives_shaped resolves inner (next + 1) within (placed_cons_iff.1 placed).2
    exact (auxiliary_shaped placed (forall_orEmpty inner.1) inner.2).imp_left forall_single
  | repetition inner min max =>
    exact (repeated_shaped placed fun made =>
      symbol_shaped resolves inner (next + 1) within made).imp_left forall_single

/-- The alternatives of an expression are plain, and its nonterminals have the shape. -/
theorem alternatives_shaped (resolves : rules.Resolves rule ids) (expr : Expr) (next : Nat)
    (within : expr.references ⊆ ids)
    (placed : Placed rules.Has next (Flatten.alternatives rule next expr).2) :
    rules.ArePlain rule ids (Flatten.alternatives rule next expr).1 ∧
      Placed (rules.Shaped rule ids) next (Flatten.alternatives rule next expr).2 := by
  cases expr with
  | literal text =>
    exact ⟨forall_only (forall_single (isPlain_of_terminal (by simp))), placed_nil⟩
  | value =>
    exact ⟨forall_only (forall_single (isPlain_of_terminal (by simp))), placed_nil⟩
  | rule id =>
    exact ⟨forall_only (forall_single
      (isPlain_of_mem resolves (within (List.mem_singleton_self _)))), placed_nil⟩
  | seq items =>
    have inner := sequences_shaped resolves items next within placed
    exact ⟨forall_only (forall_flatten inner.1), inner.2⟩
  | alt items => exact sequences_shaped resolves items next within placed
  | optional inner =>
    exact (alternatives_shaped resolves inner next within placed).imp_left forall_orEmpty
  | repetition inner min max =>
    exact (repeated_shaped placed fun made =>
      symbol_shaped resolves inner (next + 1) within made).imp_left
      fun plain => forall_only (forall_single plain)

/-- The symbols of several expressions are plain, and their nonterminals have the shape. -/
theorem sequences_shaped (resolves : rules.Resolves rule ids) (items : List Expr) (next : Nat)
    (within : referencesOf items ⊆ ids)
    (placed : Placed rules.Has next (Flatten.sequences rule next items).2) :
    rules.ArePlain rule ids (Flatten.sequences rule next items).1 ∧
      Placed (rules.Shaped rule ids) next (Flatten.sequences rule next items).2 := by
  cases items with
  | nil => exact ⟨by simp [ArePlain, Flatten.sequences], placed_nil⟩
  | cons item rest =>
    rw [referencesOf, List.append_subset] at within
    rw [Flatten.sequences] at placed ⊢
    obtain ⟨first, others⟩ := placed_append_iff.1 placed
    obtain ⟨plain, shaped⟩ := sequence_shaped resolves item next within.1 first
    obtain ⟨morePlain, moreShaped⟩ := sequences_shaped resolves rest _ within.2 others
    exact ⟨List.forall_mem_cons.2 ⟨plain, morePlain⟩, placed_append_iff.2 ⟨shaped, moreShaped⟩⟩

end

end Rules

end CommandGrammar
