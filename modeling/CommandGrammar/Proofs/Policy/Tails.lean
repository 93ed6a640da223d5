import Mathlib
import CommandGrammar.Proofs.Policy.Heads

/-!
# Reading what follows a terminal

After the terminal that a production begins with, each further symbol is read as its
expression is picked, if the nodes are read so. An option, a choice and a repetition have
numbers of their own, which differ from those of the nodes and of what is inside them.
-/

namespace CommandGrammar

namespace Reading

variable {grammar : Grammar} {tokens : List String} {start stop low high : Nat}
  {fuel : Nat} {opened : List Span}

/-- The number is that of a node. -/
def Named (grammar : Grammar) (index : Nat) : Prop :=
  ∃ id, (Rules.ofGrammar grammar).label index = .named id

/-- The nodes are read as their rules are picked, between all places of a range. -/
def NamedReads (grammar : Grammar) (tokens : List String) (low high : Nat) : Prop :=
  ∀ id ∈ grammar.ids,
    ReadsIn grammar tokens (Named grammar) (.nonterminal (grammar.number id)) (.rule id) low high

/-- Rules are flattened to the nonterminals of their nodes. -/
theorem sequences_rules {rule : NodeId → Nat} {ids : List NodeId} {next : Nat} {items : List Expr}
    (rules : items.all Expr.isRule = true) (within : referencesOf items ⊆ ids) :
    List.Forall₂ (fun symbols item => ∃ id ∈ ids, symbols = [.nonterminal (rule id)] ∧
      item = .rule id) (Flatten.sequences rule next items).1 items := by
  induction items with
  | nil => exact .nil
  | cons item rest ih =>
    rw [List.all_cons, Bool.and_eq_true] at rules
    rw [referencesOf, List.append_subset] at within
    cases item with
    | rule id =>
      exact .cons ⟨id, within.1 (List.mem_singleton_self _), rfl, rfl⟩ (ih rules.2 within.2)
    | _ => cases rules.1

/-- A rule, or a choice of rules, is read as it is picked, unless a node or its own number is
open. -/
theorem readsIn_item (closed : grammar.isClosed = true) (bounded : grammar.isBounded = true)
    (named : NamedReads grammar tokens low high) {expr : Expr} (item : expr.isItem = true)
    (within : expr.references ⊆ grammar.ids) {next : Nat}
    (placed : Placed (Rules.ofGrammar grammar).Has next
      (Flatten.symbol grammar.number next expr).2) :
    ReadsIn grammar tokens (fun index => Named grammar index ∨
        next ≤ index ∧ index < next + (Flatten.symbol grammar.number next expr).2.length)
      (Flatten.symbol grammar.number next expr).1 expr low high := by
  cases expr with
  | rule id => exact (named id (within (List.mem_singleton_self _))).mono fun _ here => .inl here
  | alt items =>
    have has := (placed_cons_iff.1 placed).1
    refine readsIn_auxiliary (Named grammar) has (.inr ⟨Nat.le_refl _, ?_⟩)
      (fun _ here => .inl here) ?_ ?_
    · simp [Flatten.symbol, Flatten.auxiliary]
    · rintro ⟨id, label⟩
      rw [has.label] at label
      cases label
    · intro fuel opened start stop above ordered below opens fresh
      refine readsAny_alt closed bounded ((sequences_rules item within).imp ?_)
      rintro _ _ ⟨id, known, rfl, rfl⟩
      have reads := named id known fuel opened start stop above ordered below opens fresh
      exact reads.all closed bounded
  | _ => cases item

/-- Items that a repetition must have, and what it goes on with. -/
theorem readsAll_replicate (closed : grammar.isClosed = true) (bounded : grammar.isBounded = true)
    {read : SpanReader} {item tail : Symbol} {inner : Expr} {max : Option Nat}
    (solid : IsSolid grammar tokens inner) (head : Reads grammar tokens read item inner start stop)
    (rest : ReadsAll grammar tokens read [tail] (.repetition inner 0 max) start stop)
    (count : Nat) :
    ReadsAll grammar tokens read (List.replicate count item ++ [tail])
      (.repetition inner count (max.map (· + count))) start stop := by
  induction count with
  | zero => simpa using rest
  | succ count ih =>
    have more := readsAll_repetition closed bounded solid head ih
    rw [raised, Option.map_map] at more
    exact more

/-- The tail of a repetition is read as the further items are picked, unless a number of the item
or of the tail is open. -/
theorem readsIn_further (closed : grammar.isClosed = true) (bounded : grammar.isBounded = true)
    {inner : Expr} (solid : IsSolid grammar tokens inner) {item : Symbol} {number min : Nat}
    {max : Option Nat} {tail : Flatten.Made Symbol}
    (made : tail = match max with
      | none => Flatten.starTail number item
      | some max => Flatten.chainTail number item (max - min))
    (placed : Placed (Rules.ofGrammar grammar).Has number tail.2) {block : Nat → Prop}
    (items : ReadsIn grammar tokens block item inner low high)
    (apart : ∀ index, block index → Named grammar index ∨ index < number) :
    ReadsIn grammar tokens (fun index => number ≤ index ∨ block index) tail.1
      (.repetition inner 0 (max.map (· - min))) low high := by
  cases max with
  | none =>
    subst made
    exact (readsIn_star closed bounded solid (placed_cons_iff.1 placed).1 items).mono
      fun _ within => .inr within
  | some max =>
    subst made
    refine (readsIn_chain closed bounded solid placed (Nat.le_refl _) items ?_).mono ?_
    · intro other within
      by_contra inside
      rcases apart _ within with ⟨id, named⟩ | below
      · rw [Rules.label_link placed (Nat.le_of_not_lt inside)] at named
        cases named
      · omega
    · rintro index (⟨other, _, rfl⟩ | within)
      · exact .inl (Nat.le_add_right _ _)
      · exact .inr within

/-- A repetition of rules is read as it is picked. -/
theorem readsIn_repeated (closed : grammar.isClosed = true) (bounded : grammar.isBounded = true)
    (headed : grammar.isHeaded = true) (named : NamedReads grammar tokens low high) {inner : Expr}
    (item : inner.isItem = true) (within : inner.references ⊆ grammar.ids) {next min : Nat}
    {max : Option Nat} (ordered : ∀ bound ∈ max, min ≤ bound)
    (placed : Placed (Rules.ofGrammar grammar).Has next
      (Flatten.repeated next min max (Flatten.symbol grammar.number (next + 1) inner)).2) :
    ReadsIn grammar tokens (fun _ => True) (.nonterminal next) (.repetition inner min max)
      low high := by
  obtain ⟨has, others⟩ := placed_cons_iff.1 placed
  obtain ⟨own, ends⟩ := placed_append_iff.1 others
  have solid : IsSolid grammar tokens inner := isSolid_of_isItem headed item
  have items := readsIn_item closed bounded named item within own
  have further := readsIn_further closed bounded solid rfl ends items (by
    rintro index (name | ⟨_, below⟩)
    · exact .inl name
    · exact .inr below)
  have away : ¬ Named grammar next := by
    rintro ⟨id, label⟩
    rw [has.label] at label
    cases label
  -- Inside the repetition its own number is open, which is that of no node and of no part of it.
  refine readsIn_auxiliary (· ≠ next) has trivial (fun _ _ => trivial) (· rfl) ?_
  intro fuel opened start stop above ordered below opens fresh
  have notOwn : ∀ index, Named grammar index ∨ next + 1 ≤ index ∧ index < next + 1 +
      (Flatten.symbol grammar.number (next + 1) inner).2.length → index ≠ next := by
    rintro index (name | ⟨after, _⟩) rfl
    · exact away name
    · omega
  have head := items fuel opened start stop above ordered below opens
    (fresh.narrow (Nat.le_refl _) (Nat.le_refl _) notOwn)
  have tail := further fuel opened start stop above ordered below opens
    (fresh.narrow (Nat.le_refl _) (Nat.le_refl _) (by
      rintro index (after | within)
      · omega
      · exact notOwn index within))
  have all := readsAll_replicate closed bounded solid head (tail.all closed bounded) min
  have bound : (max.map (· - min)).map (· + min) = max := by
    cases max with
    | none => rfl
    | some bound => simpa using Nat.sub_add_cancel (ordered bound rfl)
  rw [bound] at all
  exact all.any closed bounded

/-- A terminal is one symbol, which is read wherever the terminal is picked. -/
theorem readsIn_terminal {expr : Expr} (terminal : expr.isTerminal = true) (rule : NodeId → Nat)
    (next : Nat) : ∃ symbol, Flatten.sequence rule next expr = ([symbol], []) ∧
      ∀ block, ReadsIn grammar tokens block symbol expr low high := by
  cases expr with
  | literal text => exact ⟨_, rfl, fun _ => readsIn_literal text⟩
  | value => exact ⟨_, rfl, fun _ => readsIn_value⟩
  | _ => cases terminal

/-- What follows a terminal is one symbol, which is read as it is picked. -/
theorem readsIn_tail (closed : grammar.isClosed = true) (bounded : grammar.isBounded = true)
    (headed : grammar.isHeaded = true) (named : NamedReads grammar tokens low high) {expr : Expr}
    (tail : expr.isTail = true) (fits : expr.isBounded = true)
    (within : expr.references ⊆ grammar.ids) {next : Nat}
    (placed : Placed (Rules.ofGrammar grammar).Has next
      (Flatten.sequence grammar.number next expr).2) :
    ∃ symbol, (Flatten.sequence grammar.number next expr).1 = [symbol] ∧
      ReadsIn grammar tokens (fun _ => True) symbol expr low high := by
  cases expr with
  | literal text => exact ⟨_, rfl, readsIn_literal text⟩
  | value => exact ⟨_, rfl, readsIn_value⟩
  | rule id =>
    exact ⟨_, rfl, (named id (within (List.mem_singleton_self _))).mono fun _ _ => trivial⟩
  | optional inner =>
    cases inner with
    | literal text =>
      have has := (placed_cons_iff.1 placed).1
      refine ⟨_, rfl, readsIn_auxiliary (· ≠ next) has trivial (fun _ _ => trivial) (· rfl) ?_⟩
      intro fuel opened start stop above ordered below opens fresh
      have one : ReadsIn grammar tokens (· ≠ next) (.literal text) (.literal text) low high :=
        readsIn_literal text
      have reads := one fuel opened start stop above ordered below opens fresh
      exact (reads.all closed bounded).optional closed bounded
    | _ => cases tail
  | repetition inner min max =>
    rw [Expr.isBounded, Bool.and_eq_true] at fits
    refine ⟨_, rfl, readsIn_repeated closed bounded headed named tail within ?_ placed⟩
    rintro bound rfl
    simpa using fits.2
  | _ => cases tail

/-- All that follows a terminal is read as it is picked. -/
theorem readsAll_tails (closed : grammar.isClosed = true) (bounded : grammar.isBounded = true)
    (headed : grammar.isHeaded = true) (named : NamedReads grammar tokens low high)
    {items : List Expr} (tails : items.all Expr.isTail = true) (fits : areBounded items = true)
    (within : referencesOf items ⊆ grammar.ids) {next : Nat}
    (placed : Placed (Rules.ofGrammar grammar).Has next
      (Flatten.sequences grammar.number next items).2)
    (above : low ≤ start) (ordered : start ≤ stop) (below : stop ≤ high)
    (opens : Opens grammar fuel opened start stop)
    (fresh : Fresh opened (fun _ => True) start stop) :
    ReadsAll grammar tokens ((ofGrammar grammar tokens).readEither
      ((ofGrammar grammar tokens).readAlternatives fuel opened))
      (Flatten.sequences grammar.number next items).1.flatten (.seq items) start stop := by
  induction items generalizing next with
  | nil => exact readsAll_nil
  | cons item rest ih =>
    rw [List.all_cons, Bool.and_eq_true] at tails
    rw [areBounded, Bool.and_eq_true] at fits
    rw [referencesOf, List.append_subset] at within
    rw [Flatten.sequences] at placed ⊢
    obtain ⟨first, others⟩ := placed_append_iff.1 placed
    obtain ⟨symbol, same, reads⟩ :=
      readsIn_tail closed bounded headed named tails.1 fits.1 within.1 first
    rw [List.flatten_cons, same]
    have first := reads fuel opened start stop above ordered below opens fresh
    exact readsAll_cons closed bounded first
      (ih tails.2 fits.2 within.2 others) fun _ _ after spans => Nat.le_trans after spans.le

end Reading

end CommandGrammar
