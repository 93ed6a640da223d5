import Mathlib
import CommandGrammar.Proofs.Flatten.Leaves

/-!
# Every alternative yields something

Flattening makes no dead end: where every choice of an expression has something to choose,
each alternative of each nonterminal made of it denotes something, if the atoms do. In a
grammar whose productions refer only to later nodes the atoms do as well, from the last
node up to the first.
-/

namespace CommandGrammar

mutual

/-- Every choice in the expression has something to choose. -/
def Expr.offers : Expr → Bool
  | .literal _ | .value | .rule _ => true
  | .seq items => allOffer items
  | .alt items => !items.isEmpty && allOffer items
  | .optional inner => inner.offers
  | .repetition inner _ _ => inner.offers

/-- Every choice in the expressions has something to choose. -/
def allOffer : List Expr → Bool
  | [] => true
  | item :: rest => item.offers && allOffer rest

end

variable {α : Type}

/-- The terminals and the rules of some nodes stand for something. -/
structure Atoms.Full (atoms : Atoms α) (ids : List NodeId) : Prop where
  /-- Every literal does. -/
  literal : ∀ text, ∃ word, atoms.literal text word
  /-- The value terminal does. -/
  value : ∃ word, atoms.value word
  /-- The rules of the nodes do. -/
  rule : ∀ id ∈ ids, ∃ word, atoms.rule id word

namespace Rules

/-- The symbols denote something. -/
def Lives (rules : Rules) (rule : NodeId → Nat) (atoms : Atoms α) (symbols : List Symbol) : Prop :=
  ∃ word, rules.Denotes rule atoms symbols word

/-- Each of the alternatives denotes something. -/
def AllLive (rules : Rules) (rule : NodeId → Nat) (atoms : Atoms α)
    (alternatives : List (List Symbol)) : Prop :=
  ∀ alternative ∈ alternatives, rules.Lives rule atoms alternative

/-- Each alternative of a nonterminal denotes something, whatever its number. -/
def LivesAt (rules : Rules) (rule : NodeId → Nat) (atoms : Atoms α) (_ : Nat)
    (nonterminal : Nonterminal) : Prop :=
  rules.AllLive rule atoms nonterminal.alternatives

variable {rules : Rules} {rule : NodeId → Nat} {atoms : Atoms α} {next : Nat}

/-- Symbols one after the other denote something if the first of them and the others do. -/
theorem Lives.append {first others : List Symbol} (head : rules.Lives rule atoms first)
    (tail : rules.Lives rule atoms others) : rules.Lives rule atoms (first ++ others) := by
  obtain ⟨before, first⟩ := head
  obtain ⟨after, last⟩ := tail
  exact ⟨before ++ after, first.append last⟩

/-- No symbol denotes something: the empty sequence. -/
theorem lives_nil : rules.Lives rule atoms [] := ⟨[], .nil⟩

/-- Parts joined denote something if each of them does. -/
theorem AllLive.flatten {parts : List (List Symbol)} (live : rules.AllLive rule atoms parts) :
    rules.Lives rule atoms parts.flatten := by
  induction parts with
  | nil => exact lives_nil
  | cons part rest ih =>
    exact (live part List.mem_cons_self).append
      (ih fun other member => live other (List.mem_cons_of_mem _ member))

/-- An only alternative. -/
theorem allLive_singleton {symbols : List Symbol} (lives : rules.Lives rule atoms symbols) :
    rules.AllLive rule atoms [symbols] := by
  rintro _ member
  obtain rfl := List.mem_singleton.1 member
  exact lives

/-- A symbol any number of times denotes something if it does once. -/
theorem lives_replicate {symbol : Symbol} (lives : rules.Lives rule atoms [symbol]) (count : Nat) :
    rules.Lives rule atoms (List.replicate count symbol) := by
  induction count with
  | zero => exact lives_nil
  | succ count ih => exact lives.append ih

/-- The nonterminal of a nested expression denotes something if an alternative does. -/
theorem lives_nested {index : Nat} {nonterminal : Nonterminal} {alternative : List Symbol}
    (has : rules.Has index nonterminal) (nested : ∀ id, nonterminal.label ≠ .named id)
    (member : alternative ∈ nonterminal.alternatives)
    (lives : rules.Lives rule atoms alternative) : rules.Lives rule atoms [.nonterminal index] := by
  obtain ⟨word, denoted⟩ := lives
  rw [← has.label] at nested
  rw [← has.alternatives] at member
  exact ⟨word, (denotes_nested_iff nested).2 ⟨alternative, member, denoted⟩⟩

/-- A new nonterminal denotes something if there are alternatives and they do. -/
theorem auxiliary_lives {made : Flatten.Made (List (List Symbol))}
    (placed : Placed rules.Has next (Flatten.auxiliary next made).2) (some : made.1 ≠ [])
    (live : rules.AllLive rule atoms made.1 ∧ Placed (rules.LivesAt rule atoms) (next + 1) made.2) :
    rules.Lives rule atoms [(Flatten.auxiliary next made).1] ∧
      Placed (rules.LivesAt rule atoms) next (Flatten.auxiliary next made).2 := by
  obtain ⟨alternative, member⟩ := List.exists_mem_of_ne_nil _ some
  have has := (placed_cons_iff.1 placed).1
  exact ⟨lives_nested has (by simp) member (live.1 alternative member),
    placed_cons_iff.2 ⟨live.1, live.2⟩⟩

/-- The empty alternative may follow others. -/
theorem AllLive.orEmpty {made : Flatten.Made (List (List Symbol))}
    (live : rules.AllLive rule atoms made.1) :
    rules.AllLive rule atoms (Flatten.orEmpty made).1 := by
  intro alternative member
  rcases List.mem_append.1 member with old | empty
  · exact live alternative old
  · obtain rfl := List.mem_singleton.1 empty
    exact lives_nil

/-- The star of an item denotes something, and so do its alternatives if the item does. -/
theorem starTail_lives {number : Nat} {item : Symbol}
    (placed : Placed rules.Has number (Flatten.starTail number item).2)
    (lives : rules.Lives rule atoms [item]) :
    rules.Lives rule atoms [(Flatten.starTail number item).1] ∧
      Placed (rules.LivesAt rule atoms) number (Flatten.starTail number item).2 := by
  have has := (placed_cons_iff.1 placed).1
  have star : rules.Lives rule atoms [.nonterminal number] :=
    lives_nested has (by simp) (by simp) lives_nil
  refine ⟨star, placed_cons_iff.2 ⟨?_, placed_nil⟩⟩
  have both : rules.Lives rule atoms [.nonterminal number, item] := star.append lives
  simpa [LivesAt, AllLive] using ⟨both, lives_nil⟩

/-- Each link of a chain of optional items denotes something. -/
theorem lives_link {number links link : Nat} {item : Symbol}
    (placed : Placed rules.Has number (Flatten.chainTail number item links).2)
    (inside : link ≤ links) : rules.Lives rule atoms [.nonterminal (number + link)] := by
  cases link with
  | zero => exact lives_nested (placed_cons_iff.1 placed).1 (by simp) (by simp) lives_nil
  | succ link => exact lives_nested (has_link placed inside) (by simp) (by simp) lives_nil

/-- A chain of optional items denotes something, and so do its alternatives if the item does. -/
theorem chainTail_lives {number links : Nat} {item : Symbol}
    (placed : Placed rules.Has number (Flatten.chainTail number item links).2)
    (lives : rules.Lives rule atoms [item]) :
    rules.Lives rule atoms [(Flatten.chainTail number item links).1] ∧
      Placed (rules.LivesAt rule atoms) number (Flatten.chainTail number item links).2 := by
  refine ⟨lives_link placed (Nat.le_refl _), placed_cons_iff.2 ⟨allLive_singleton lives_nil, ?_⟩⟩
  intro place nonterminal found
  rw [List.getElem?_map, Option.map_eq_some_iff] at found
  obtain ⟨link, below, rfl⟩ := found
  obtain ⟨inside, rfl⟩ := List.getElem?_eq_some_iff.1 below
  rw [List.length_range] at inside
  have both : rules.Lives rule atoms [item, .nonterminal (number + place)] :=
    lives.append (lives_link placed (Nat.le_of_lt inside))
  simpa [LivesAt, AllLive] using ⟨both, lives_nil⟩

/-- A repetition denotes something if its item does. -/
theorem repeated_lives {min : Nat} {max : Option Nat} {item : Flatten.Made Symbol}
    (placed : Placed rules.Has next (Flatten.repeated next min max item).2)
    (made : Placed rules.Has (next + 1) item.2 →
      rules.Lives rule atoms [item.1] ∧ Placed (rules.LivesAt rule atoms) (next + 1) item.2) :
    rules.Lives rule atoms [(Flatten.repeated next min max item).1] ∧
      Placed (rules.LivesAt rule atoms) next (Flatten.repeated next min max item).2 := by
  obtain ⟨has, others⟩ := placed_cons_iff.1 placed
  obtain ⟨inner, ends⟩ := placed_append_iff.1 others
  obtain ⟨lives, live⟩ := made inner
  have front {tail : Flatten.Made Symbol}
      (own : rules.Has next ⟨.auxiliary, [List.replicate min item.1 ++ [tail.1]]⟩)
      (last : rules.Lives rule atoms [tail.1] ∧
        Placed (rules.LivesAt rule atoms) (next + 1 + item.2.length) tail.2) :
      rules.Lives rule atoms [.nonterminal next] ∧ Placed (rules.LivesAt rule atoms) next
        (⟨.auxiliary, [List.replicate min item.1 ++ [tail.1]]⟩ :: (item.2 ++ tail.2)) := by
    have whole := (lives_replicate lives min).append last.1
    exact ⟨lives_nested own (by simp) (List.mem_singleton_self _) whole,
      placed_cons_iff.2 ⟨allLive_singleton whole, placed_append_iff.2 ⟨live, last.2⟩⟩⟩
  cases max with
  | none => exact front has (starTail_lives ends lives)
  | some max => exact front has (chainTail_lives ends lives)

/-- A terminal denotes something. -/
theorem lives_literal (text : String) {ids : List NodeId} (full : atoms.Full ids) :
    rules.Lives rule atoms [.literal text] := by
  obtain ⟨word, stands⟩ := full.literal text
  exact ⟨word, denotes_literal_iff.2 stands⟩

/-- The value terminal denotes something. -/
theorem lives_value {ids : List NodeId} (full : atoms.Full ids) :
    rules.Lives rule atoms [.value] := by
  obtain ⟨word, stands⟩ := full.value
  exact ⟨word, denotes_value_iff.2 stands⟩

/-- The nonterminal of a node denotes something. -/
theorem lives_named {ids : List NodeId} (resolves : rules.Resolves rule ids)
    (full : atoms.Full ids) {id : NodeId} (member : id ∈ ids) :
    rules.Lives rule atoms [.nonterminal (rule id)] := by
  obtain ⟨word, stands⟩ := full.rule id member
  exact ⟨word, (denotes_named_iff (resolves id member)).2 stands⟩

/-- There are as many lists of symbols as expressions. -/
theorem sequences_ne_nil {items : List Expr} (some : items.isEmpty = false) :
    (Flatten.sequences rule next items).1 ≠ [] := by
  cases items with
  | nil => cases some
  | cons item rest => simp [Flatten.sequences]

/-- An expression with something to choose has alternatives. -/
theorem alternatives_ne_nil {expr : Expr} (offers : expr.offers = true) :
    (Flatten.alternatives rule next expr).1 ≠ [] := by
  cases expr with
  | alt items =>
    rw [Expr.offers, Bool.and_eq_true, Bool.not_eq_true'] at offers
    exact sequences_ne_nil offers.1
  | optional inner => simp [Flatten.alternatives, Flatten.orEmpty]
  | literal | value | rule | seq | repetition => simp [Flatten.alternatives, Flatten.only]

mutual

/-- The symbol of an expression denotes something, and so do the alternatives made with it. -/
theorem symbol_lives {ids : List NodeId} (resolves : rules.Resolves rule ids)
    (full : atoms.Full ids) (expr : Expr) (next : Nat) (offers : expr.offers = true)
    (within : expr.references ⊆ ids)
    (placed : Placed rules.Has next (Flatten.symbol rule next expr).2) :
    rules.Lives rule atoms [(Flatten.symbol rule next expr).1] ∧
      Placed (rules.LivesAt rule atoms) next (Flatten.symbol rule next expr).2 := by
  cases expr with
  | literal text => exact ⟨lives_literal text full, placed_nil⟩
  | value => exact ⟨lives_value full, placed_nil⟩
  | rule id => exact ⟨lives_named resolves full (within (List.mem_singleton_self _)), placed_nil⟩
  | seq items =>
    have inner := sequences_live resolves full items (next + 1) offers within
      (placed_cons_iff.1 placed).2
    exact auxiliary_lives placed (by simp [Flatten.only])
      ⟨allLive_singleton inner.1.flatten, inner.2⟩
  | alt items =>
    rw [Expr.offers, Bool.and_eq_true, Bool.not_eq_true'] at offers
    have inner := sequences_live resolves full items (next + 1) offers.2 within
      (placed_cons_iff.1 placed).2
    exact auxiliary_lives placed (sequences_ne_nil offers.1) inner
  | optional inner =>
    have inner := alternatives_live resolves full inner (next + 1) offers within
      (placed_cons_iff.1 placed).2
    exact auxiliary_lives placed (by simp [Flatten.orEmpty]) ⟨inner.1.orEmpty, inner.2⟩
  | repetition inner min max =>
    exact repeated_lives placed fun made =>
      symbol_lives resolves full inner (next + 1) offers within made

/-- The symbols of an expression denote something, and so do the alternatives made with them. -/
theorem sequence_lives {ids : List NodeId} (resolves : rules.Resolves rule ids)
    (full : atoms.Full ids) (expr : Expr) (next : Nat) (offers : expr.offers = true)
    (within : expr.references ⊆ ids)
    (placed : Placed rules.Has next (Flatten.sequence rule next expr).2) :
    rules.Lives rule atoms (Flatten.sequence rule next expr).1 ∧
      Placed (rules.LivesAt rule atoms) next (Flatten.sequence rule next expr).2 := by
  cases expr with
  | literal text => exact ⟨lives_literal text full, placed_nil⟩
  | value => exact ⟨lives_value full, placed_nil⟩
  | rule id => exact ⟨lives_named resolves full (within (List.mem_singleton_self _)), placed_nil⟩
  | seq items =>
    have inner := sequences_live resolves full items next offers within placed
    exact ⟨inner.1.flatten, inner.2⟩
  | alt items =>
    rw [Expr.offers, Bool.and_eq_true, Bool.not_eq_true'] at offers
    have inner := sequences_live resolves full items (next + 1) offers.2 within
      (placed_cons_iff.1 placed).2
    exact auxiliary_lives placed (sequences_ne_nil offers.1) inner
  | optional inner =>
    have inner := alternatives_live resolves full inner (next + 1) offers within
      (placed_cons_iff.1 placed).2
    exact auxiliary_lives placed (by simp [Flatten.orEmpty]) ⟨inner.1.orEmpty, inner.2⟩
  | repetition inner min max =>
    exact repeated_lives placed fun made =>
      symbol_lives resolves full inner (next + 1) offers within made

/-- Each alternative of an expression denotes something, and so do the ones made with them. -/
theorem alternatives_live {ids : List NodeId} (resolves : rules.Resolves rule ids)
    (full : atoms.Full ids) (expr : Expr) (next : Nat) (offers : expr.offers = true)
    (within : expr.references ⊆ ids)
    (placed : Placed rules.Has next (Flatten.alternatives rule next expr).2) :
    rules.AllLive rule atoms (Flatten.alternatives rule next expr).1 ∧
      Placed (rules.LivesAt rule atoms) next (Flatten.alternatives rule next expr).2 := by
  cases expr with
  | literal text => exact ⟨allLive_singleton (lives_literal text full), placed_nil⟩
  | value => exact ⟨allLive_singleton (lives_value full), placed_nil⟩
  | rule id =>
    have named := lives_named resolves full (within (List.mem_singleton_self _))
    exact ⟨allLive_singleton named, placed_nil⟩
  | seq items =>
    have inner := sequences_live resolves full items next offers within placed
    exact ⟨allLive_singleton inner.1.flatten, inner.2⟩
  | alt items =>
    rw [Expr.offers, Bool.and_eq_true] at offers
    exact sequences_live resolves full items next offers.2 within placed
  | optional inner =>
    exact (alternatives_live resolves full inner next offers within placed).imp_left AllLive.orEmpty
  | repetition inner min max =>
    exact (repeated_lives placed fun made =>
      symbol_lives resolves full inner (next + 1) offers within made).imp_left allLive_singleton

/-- The symbols of each of several expressions denote something, and so do the alternatives made
with them. -/
theorem sequences_live {ids : List NodeId} (resolves : rules.Resolves rule ids)
    (full : atoms.Full ids) (items : List Expr) (next : Nat) (offers : allOffer items = true)
    (within : referencesOf items ⊆ ids)
    (placed : Placed rules.Has next (Flatten.sequences rule next items).2) :
    rules.AllLive rule atoms (Flatten.sequences rule next items).1 ∧
      Placed (rules.LivesAt rule atoms) next (Flatten.sequences rule next items).2 := by
  cases items with
  | nil => exact ⟨by simp [AllLive, Flatten.sequences], placed_nil⟩
  | cons item rest =>
    rw [allOffer, Bool.and_eq_true] at offers
    rw [referencesOf, List.append_subset] at within
    rw [Flatten.sequences] at placed ⊢
    obtain ⟨first, others⟩ := placed_append_iff.1 placed
    obtain ⟨lives, inner⟩ := sequence_lives resolves full item next offers.1 within.1 first
    obtain ⟨more, later⟩ := sequences_live resolves full rest _ offers.2 within.2 others
    exact ⟨List.forall_mem_cons.2 ⟨lives, more⟩, placed_append_iff.2 ⟨inner, later⟩⟩

end

end Rules

namespace Grammar

variable {grammar : Grammar}

/-- Leaves as atoms, where rules stand for what the nonterminals of their nodes yield. -/
def flatAtoms (grammar : Grammar) : Atoms Leaf :=
  leafAtoms fun id => (Rules.ofGrammar grammar).Yields [.nonterminal (grammar.number id)]

/-- The atoms stand for something if the nonterminals of the nodes yield something. -/
theorem full_flatAtoms {ids : List NodeId} (each : ∀ id ∈ ids, ∃ leaves,
    (Rules.ofGrammar grammar).Yields [.nonterminal (grammar.number id)] leaves) :
    grammar.flatAtoms.Full ids :=
  ⟨fun _ => ⟨_, 0, rfl⟩, ⟨[⟨.value, "", 0⟩], "", 0, rfl⟩, each⟩

/-- Every choice in the productions has something to choose, and every production refers to later
nodes only. -/
structure Descends (grammar : Grammar) : Prop where
  /-- Choices have something to choose. -/
  offers : ∀ production ∈ grammar.productions, production.expr.offers = true
  /-- The nodes referred to are later ones. -/
  later : ∀ production ∈ grammar.productions, ∀ id ∈ production.expr.references, production.id < id

/-- A node whose production refers to later nodes only yields something: the last nodes do, and so
does each one before them. -/
theorem exists_yields (closed : grammar.isClosed = true) (descends : grammar.Descends) {id : NodeId}
    (known : id ∈ grammar.ids) : ∃ leaves,
      (Rules.ofGrammar grammar).Yields [.nonterminal (grammar.number id)] leaves := by
  have bound : ∀ other ∈ grammar.ids, other ≤ grammar.ids.sum := fun other member =>
    List.le_sum_of_mem member
  generalize distance : grammar.ids.sum - id = left
  induction left using Nat.strong_induction_on generalizing id with
  | _ left ih =>
    obtain ⟨production, found⟩ := production?_isSome known
    have member := mem_of_production? found
    have own := id_of_production? found
    have within := references_known closed member
    have full : grammar.flatAtoms.Full production.expr.references := by
      refine full_flatAtoms fun other referred => ?_
      have further : id < other := own ▸ descends.later production member other referred
      have inside := bound other (within referred)
      have closer : grammar.ids.sum - other < grammar.ids.sum - id :=
        Nat.sub_lt_sub_left (Nat.lt_of_lt_of_le further inside) further
      exact ih _ (distance ▸ closer) (within referred) rfl
    obtain ⟨next, has, placed⟩ := has_number found
    have offers := descends.offers production member
    obtain ⟨alternative, listed⟩ := List.exists_mem_of_ne_nil _
      (@Rules.alternatives_ne_nil grammar.number next _ offers)
    have live := (Rules.alternatives_live (fun other referred =>
      grammar.resolves other (within referred)) full production.expr next offers
      (List.Subset.refl _) placed).1
    obtain ⟨leaves, denoted⟩ := live alternative listed
    have known_there : alternative ∈ (Rules.ofGrammar grammar).alternatives (grammar.number id) :=
      has.alternatives ▸ listed
    exact ⟨leaves, Rules.yields_nonterminal_iff.2
      ⟨alternative, known_there, yields_of_denotes denoted⟩⟩

end Grammar

end CommandGrammar
