import Mathlib
import CommandGrammar.Proofs.Policy.Picks
import CommandGrammar.Proofs.Reading.Derivation
import CommandGrammar.Proofs.Reading.Success

/-!
# Reading follows the policy

Where the reader refuses nothing, it picks: it lists the ends of a symbol by falling
places and takes the first one from which the other symbols can go on, and it takes the
first alternative that can match. The lemmas say so for lists of symbols, for
alternatives and for the items of a star, given that each symbol is read as its
expression is picked.
-/

namespace CommandGrammar

namespace Grammar

variable {grammar : Grammar} {tokens : List String} {start stop : Nat}

/-- Symbols stand for what an expression derives. -/
def Carries (grammar : Grammar) (symbols : List Symbol) (expr : Expr) : Prop :=
  (Rules.ofGrammar grammar).Stands grammar.number
    (tokenAtoms fun id => grammar.Derives (.rule id)) symbols expr

/-- Alternatives stand for what an expression derives. -/
def CarriesAny (grammar : Grammar) (alternatives : List (List Symbol)) (expr : Expr) : Prop :=
  ∀ word, (∃ symbols ∈ alternatives, (Rules.ofGrammar grammar).Denotes grammar.number
    (tokenAtoms fun id => grammar.Derives (.rule id)) symbols word) ↔
      expr.Denotes (tokenAtoms fun id => grammar.Derives (.rule id)) word

/-- Symbols derive the tokens that they denote, if rules stand for what nodes derive. -/
theorem flat_of_denoted (closed : grammar.isClosed = true) (bounded : grammar.isBounded = true)
    {symbols : List Symbol} {word : List String}
    (denoted : (Rules.ofGrammar grammar).Denotes grammar.number
      (tokenAtoms fun id => grammar.Derives (.rule id)) symbols word) :
    (Rules.ofGrammar grammar).Derives symbols word := by
  refine flat_of_denotes (fun derived => ?_) denoted
  obtain ⟨production, found, _⟩ := derives_rule_iff.1 derived
  exact (flat_derives_iff closed bounded (mem_ids_of_production? found)).2 derived

/-- Symbols derive the tokens between two places exactly if their expression does. -/
theorem Carries.spans_iff {symbols : List Symbol} {expr : Expr}
    (carries : grammar.Carries symbols expr) (closed : grammar.isClosed = true)
    (bounded : grammar.isBounded = true) (proper : ∀ symbol ∈ symbols, grammar.IsProper symbol)
    (inside : start ≤ tokens.length) :
    (Rules.ofGrammar grammar).Spans tokens symbols start stop ↔
      grammar.Spans tokens expr start stop := by
  have same (word : List String) :
      (Rules.ofGrammar grammar).Derives symbols word ↔ grammar.Derives expr word := by
    rw [← denotes_iff_derives, ← carries word]
    exact ⟨fun derived => denotes_of_flat closed bounded derived proper,
      flat_of_denoted closed bounded⟩
  constructor
  · intro spans
    exact ⟨spans.le, spans.le_length inside, (same _).1 spans.derives⟩
  · rintro ⟨ordered, below, derived⟩
    exact (Rules.spans_iff_derives ordered below).2 ((same _).2 derived)

end Grammar

namespace Reading

/-- In a list by falling places the first one with a result is the last place that has one. -/
theorem findSome?_of_falling {α : Type} {places : List Nat} (falling : places.Pairwise (· ≥ ·))
    {find : Nat → Option α} {place : Nat} {found : α} (member : place ∈ places)
    (here : find place = some found)
    (later : ∀ other ∈ places, place < other → find other = none) :
    places.findSome? find = some found := by
  induction places with
  | nil => cases member
  | cons first rest ih =>
    obtain ⟨above, sorted⟩ := List.pairwise_cons.1 falling
    rw [List.findSome?_cons]
    by_cases same : first = place
    · rw [same, here]
    · have inside := List.mem_of_ne_of_mem (Ne.symm same) member
      have below : place < first := Nat.lt_of_le_of_ne (above place inside) (Ne.symm same)
      rw [later first List.mem_cons_self below]
      exact ih sorted inside fun other inRest => later other (List.mem_cons_of_mem _ inRest)

variable {grammar : Grammar} {tokens : List String} {start stop : Nat} {read : SpanReader}

/-- The reading of tokens by a grammar. -/
abbrev ofGrammar (grammar : Grammar) (tokens : List String) : Reading :=
  (Table.ofGrammar grammar).reading tokens

/-- A symbol is read between two places as its expression is picked. -/
structure Reads (grammar : Grammar) (tokens : List String) (read : SpanReader) (symbol : Symbol)
    (expr : Expr) (start stop : Nat) : Prop where
  /-- The symbol stands for the expression. -/
  carries : grammar.Carries [symbol] expr
  /-- It stands for nodes only as their nonterminal. -/
  proper : grammar.IsProper symbol
  /-- Where it is awaited and the expression derives the tokens, what is picked is read. -/
  follows : ∀ first last, start ≤ first → last ≤ stop →
    (∀ index, symbol = .nonterminal index → (Rules.ofGrammar grammar).Awaited tokens index first) →
    grammar.Spans tokens expr first last →
    ∃ trees, (ofGrammar grammar tokens).readItem read symbol first last = some trees ∧
      grammar.Picks tokens expr first last trees

/-- Symbols are read between two places as their expression is picked. -/
structure ReadsAll (grammar : Grammar) (tokens : List String) (read : SpanReader)
    (symbols : List Symbol) (expr : Expr) (start stop : Nat) : Prop where
  /-- The symbols stand for the expression. -/
  carries : grammar.Carries symbols expr
  /-- They stand for nodes only as their nonterminals. -/
  proper : ∀ symbol ∈ symbols, grammar.IsProper symbol
  /-- Where they are waited for and the expression derives the tokens, what is picked is read. -/
  follows : ∀ first last, start ≤ first → last ≤ stop →
    (Rules.ofGrammar grammar).Waits tokens symbols first → grammar.Spans tokens expr first last →
    ∃ trees, (ofGrammar grammar tokens).readSymbols read symbols first last = some trees ∧
      grammar.Picks tokens expr first last trees

/-- A symbol derives the tokens between two places exactly if its expression does. -/
theorem Reads.spans_iff (closed : grammar.isClosed = true) (bounded : grammar.isBounded = true)
    {symbol : Symbol} {expr : Expr} (reads : Reads grammar tokens read symbol expr start stop)
    {first last : Nat} (inside : first ≤ tokens.length) :
    (Rules.ofGrammar grammar).Spans tokens [symbol] first last ↔
      grammar.Spans tokens expr first last := by
  have proper : ∀ other ∈ [symbol], grammar.IsProper other := by
    simpa using reads.proper
  exact reads.carries.spans_iff closed bounded proper inside

/-- A symbol that is waited for is awaited, if it is a nonterminal. -/
theorem awaited_of_waits {rules : Rules} {symbol : Symbol} {rest : List Symbol} {place : Nat}
    (waits : rules.Waits tokens (symbol :: rest) place) (index : Nat)
    (same : symbol = .nonterminal index) : rules.Awaited tokens index place := by
  subst same
  exact waits.awaited

/-- No symbol is read as the empty sequence is picked. -/
theorem readsAll_nil : ReadsAll grammar tokens read [] (.seq []) start stop := by
  refine ⟨fun word => Rules.denotes_nil_iff.trans Expr.denotes_seq_nil_iff.symm, by simp, ?_⟩
  intro first last _ _ waits spans
  obtain rfl := (Grammar.spans_seq_nil_iff waits.le_length).1 spans
  exact ⟨[], by simp [readSymbols], .seqNil first⟩

/-- The first of several symbols takes the longest span from which the others go on. -/
theorem readSymbols_longest (closed : grammar.isClosed = true) (bounded : grammar.isBounded = true)
    {symbol : Symbol} {rest : List Symbol} {item others : Expr} {next : Nat}
    (head : Reads grammar tokens read symbol item start stop)
    (tail : ReadsAll grammar tokens read rest others next stop) {first last : Nat}
    (after : start ≤ first) (before : last ≤ stop)
    (moves : ∀ split, grammar.Spans tokens item first split → next ≤ split)
    (waits : (Rules.ofGrammar grammar).Waits tokens (symbol :: rest) first) {place : Nat}
    (headSpans : grammar.Spans tokens item first place)
    (tailSpans : grammar.Spans tokens others place last) :
    ∃ split front back,
      (ofGrammar grammar tokens).readSymbols read (symbol :: rest) first last =
        some (front ++ back) ∧
      grammar.Picks tokens item first split front ∧ grammar.Picks tokens others split last back ∧
      grammar.IsLongest tokens item others first split last := by
  have marks := Table.marks_ofGrammar grammar
  have inside := waits.le_length
  obtain ⟨split, itemSpans, restSpans, longest⟩ := Grammar.exists_longest headSpans tailSpans
  have awaited := awaited_of_waits waits
  have here := itemSpans.le
  have there := restSpans.le
  obtain ⟨front, readFront, pickFront⟩ :=
    head.follows first split after (by omega) awaited itemSpans
  have restIff : ∀ later ≤ tokens.length,
      ((Rules.ofGrammar grammar).Spans tokens rest later last ↔
        grammar.Spans tokens others later last) :=
    fun later below => tail.carries.spans_iff closed bounded tail.proper below
  have flat := (head.spans_iff closed bounded inside).2 itemSpans
  have later := waits.next flat
  obtain ⟨back, readBack, pickBack⟩ :=
    tail.follows split last (moves split itemSpans) before later restSpans
  refine ⟨split, front, back, ?_, pickFront, pickBack, longest⟩
  have atTerminal (terminal : ∀ index, symbol ≠ .nonterminal index)
      (leafRead : (if first + 1 = split then
        ((ofGrammar grammar tokens).leaf? symbol first).map ([·]) else none) = some front) :
      (ofGrammar grammar tokens).readSymbols read (symbol :: rest) first last =
        some (front ++ back) := by
    rw [Option.ite_none_right_eq_some] at leafRead
    obtain ⟨rfl, one⟩ := leafRead
    obtain ⟨tree, leaf, rfl⟩ := Option.map_eq_some_iff.1 one
    have below : first < last := there
    rw [readSymbols_terminal _ _ terminal, if_pos below, leaf, Option.bind_some, readBack]
    rfl
  cases symbol with
  | nonterminal index =>
    rw [readSymbols]
    refine findSome?_of_falling ends_sorted
      ((mem_ends marks).2 ⟨awaited index rfl, flat, there⟩) ?_ ?_
    · have feasible := (isFeasible_iff marks later there).2
        ((restIff split itemSpans.le_length).2 restSpans)
      have taken : read index first split = some front := readFront
      simp only [feasible, if_true, taken, readBack, Option.map_some]
    · intro later member below
      obtain ⟨_, laterFlat, bound⟩ := (mem_ends marks).1 member
      have laterSpans := (head.spans_iff closed bounded inside).1 laterFlat
      refine if_neg fun feasible => longest later below ⟨laterSpans, ?_⟩
      exact (restIff later laterSpans.le_length).1
        ((isFeasible_iff marks (waits.next laterFlat) bound).1 feasible)
  | literal text => exact atTerminal (by simp) readFront
  | value => exact atTerminal (by simp) readFront

/-- Symbols that are read one by one are read as a sequence is picked; the others need only be read
from the place on that the first one reaches. -/
theorem readsAll_cons (closed : grammar.isClosed = true) (bounded : grammar.isBounded = true)
    {symbol : Symbol} {rest : List Symbol} {item : Expr} {items : List Expr} {next : Nat}
    (head : Reads grammar tokens read symbol item start stop)
    (tail : ReadsAll grammar tokens read rest (.seq items) next stop)
    (moves : ∀ first split, start ≤ first → grammar.Spans tokens item first split → next ≤ split) :
    ReadsAll grammar tokens read (symbol :: rest) (.seq (item :: items)) start stop := by
  refine ⟨?_, List.forall_mem_cons.2 ⟨head.proper, tail.proper⟩, ?_⟩
  · intro word
    rw [Rules.denotes_cons_iff, Expr.denotes_seq_cons_iff]
    simp only [head.carries _, tail.carries _]
  · intro first last after before waits spans
    obtain ⟨place, headSpans, tailSpans⟩ := Grammar.spans_seq_cons_iff.1 spans
    obtain ⟨split, front, back, taken, pickFront, pickBack, longest⟩ :=
      readSymbols_longest closed bounded head tail after before
        (fun split => moves first split after) waits headSpans tailSpans
    exact ⟨front ++ back, taken, .seqCons pickFront pickBack longest⟩

/-- One symbol is read as one item of a sequence. -/
theorem Reads.all (closed : grammar.isClosed = true) (bounded : grammar.isBounded = true)
    {symbol : Symbol} {expr : Expr} (reads : Reads grammar tokens read symbol expr start stop) :
    ReadsAll grammar tokens read [symbol] expr start stop := by
  refine ⟨reads.carries, by simpa using reads.proper, ?_⟩
  intro first last after before waits spans
  have none_left : grammar.Spans tokens (.seq []) last last :=
    (Grammar.spans_seq_nil_iff spans.le_length).2 rfl
  obtain ⟨split, front, back, taken, pickFront, pickBack, _⟩ :=
    readSymbols_longest closed bounded reads readsAll_nil after before
      (fun split inner => Nat.le_trans after inner.le) waits spans none_left
  cases pickBack
  exact ⟨front, by simpa using taken, pickFront⟩

end Reading

end CommandGrammar
