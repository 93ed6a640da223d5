import Mathlib
import CommandGrammar.Proofs.Policy.Symbols

/-!
# Reading expressions follows the policy

What the reader may refuse is a nonterminal that is open on the same span. A nonterminal
is therefore read as its expression is picked as long as no nonterminal that can occur
inside it on a span is open there. Which ones these are is said by a block of numbers: the
numbers made for the expression, and those of nodes where it refers to them.
-/

namespace CommandGrammar

namespace Reading

variable {grammar : Grammar} {tokens : List String} {start stop : Nat} {read : SpanReader}

/-- Alternatives are read between two places as their expression is picked. -/
structure ReadsAny (grammar : Grammar) (tokens : List String) (read : SpanReader)
    (alternatives : List (List Symbol)) (expr : Expr) (start stop : Nat) : Prop where
  /-- The alternatives stand for the expression. -/
  carries : grammar.CarriesAny alternatives expr
  /-- Where they are waited for and the expression derives the tokens, what is picked is read. -/
  follows : ∀ first last, start ≤ first → last ≤ stop →
    (∀ symbols ∈ alternatives, (Rules.ofGrammar grammar).Waits tokens symbols first) →
    grammar.Spans tokens expr first last →
    ∃ trees, (alternatives.findSome? fun symbols =>
        if (ofGrammar grammar tokens).isFeasible symbols first last then
          (ofGrammar grammar tokens).readSymbols read symbols first last
        else none) = some trees ∧ grammar.Picks tokens expr first last trees

/-- Symbols are found to match exactly where their expression derives the tokens. -/
theorem ReadsAll.isFeasible_iff (closed : grammar.isClosed = true)
    (bounded : grammar.isBounded = true) {symbols : List Symbol} {expr : Expr}
    (reads : ReadsAll grammar tokens read symbols expr start stop) {first last : Nat}
    (waits : (Rules.ofGrammar grammar).Waits tokens symbols first) (ordered : first ≤ last) :
    (ofGrammar grammar tokens).isFeasible symbols first last = true ↔
      grammar.Spans tokens expr first last := by
  rw [Reading.isFeasible_iff (Table.marks_ofGrammar grammar) waits ordered]
  exact reads.carries.spans_iff closed bounded reads.proper waits.le_length

/-- An only alternative. -/
theorem ReadsAll.any (closed : grammar.isClosed = true) (bounded : grammar.isBounded = true)
    {symbols : List Symbol} {expr : Expr}
    (reads : ReadsAll grammar tokens read symbols expr start stop) :
    ReadsAny grammar tokens read [symbols] expr start stop := by
  refine ⟨fun word => Rules.exists_mem_singleton.trans (reads.carries word), ?_⟩
  intro first last after before waits spans
  have own := waits symbols List.mem_cons_self
  obtain ⟨trees, taken, picks⟩ := reads.follows first last after before own spans
  refine ⟨trees, ?_, picks⟩
  simp only [List.findSome?_cons, (reads.isFeasible_iff closed bounded own spans.le).2 spans,
    if_true, taken]

/-- Alternatives that are each read are read as a choice is picked. -/
theorem readsAny_alt (closed : grammar.isClosed = true) (bounded : grammar.isBounded = true)
    {alternatives : List (List Symbol)} {items : List Expr}
    (reads : List.Forall₂ (fun symbols item => ReadsAll grammar tokens read symbols item start stop)
      alternatives items) :
    ReadsAny grammar tokens read alternatives (.alt items) start stop := by
  refine ⟨fun word => Rules.choice_stands (reads.imp fun _ _ each => each.carries), ?_⟩
  intro first last after before waits spans
  have ordered := spans.le
  induction reads with
  | nil =>
    obtain ⟨item, member, _⟩ := Grammar.spans_alt_iff.1 spans
    cases member
  | @cons symbols item alternatives items head tail ih =>
    have own := waits symbols List.mem_cons_self
    have feasible := head.isFeasible_iff closed bounded own ordered
    by_cases here : grammar.Spans tokens item first last
    · obtain ⟨trees, taken, picks⟩ := head.follows first last after before own here
      refine ⟨trees, ?_, .altFirst picks⟩
      simp only [List.findSome?_cons, feasible.2 here, if_true, taken]
    · have later : grammar.Spans tokens (.alt items) first last := by
        obtain ⟨other, member, inner⟩ := Grammar.spans_alt_iff.1 spans
        rcases List.mem_cons.1 member with rfl | inRest
        · exact absurd inner here
        · exact Grammar.spans_alt_iff.2 ⟨other, inRest, inner⟩
      obtain ⟨trees, taken, picks⟩ :=
        ih (fun other member => waits other (List.mem_cons_of_mem _ member)) later
      refine ⟨trees, ?_, .altLater here picks⟩
      have refused : ¬ (ofGrammar grammar tokens).isFeasible symbols first last = true :=
        fun found => here (feasible.1 found)
      rw [List.findSome?_cons, if_neg refused]
      exact taken

/-- Symbols and the empty alternative after them are read as an option is picked. -/
theorem ReadsAll.optional (closed : grammar.isClosed = true) (bounded : grammar.isBounded = true)
    {symbols : List Symbol} {inner : Expr}
    (reads : ReadsAll grammar tokens read symbols inner start stop) :
    ReadsAny grammar tokens read [symbols, []] (.optional inner) start stop := by
  constructor
  · intro word
    change (∃ chosen ∈ [symbols] ++ [[]], (Rules.ofGrammar grammar).Denotes _ _ chosen word) ↔ _
    rw [Rules.orEmpty_iff, Rules.exists_mem_singleton, Expr.denotes_optional_iff,
      reads.carries word]
  · intro first last after before waits spans
    have own := waits symbols List.mem_cons_self
    have feasible := reads.isFeasible_iff closed bounded own spans.le
    by_cases here : grammar.Spans tokens inner first last
    · obtain ⟨trees, taken, picks⟩ := reads.follows first last after before own here
      refine ⟨trees, ?_, .present picks⟩
      simp only [List.findSome?_cons, feasible.2 here, if_true, taken]
    · have same : first = last :=
        ((Grammar.spans_optional_iff own.le_length).1 spans).resolve_right here
      subst same
      refine ⟨[], ?_, .absent here⟩
      have refused : ¬ (ofGrammar grammar tokens).isFeasible symbols first first = true :=
        fun found => here (feasible.1 found)
      rw [List.findSome?_cons, if_neg refused]
      simp [isFeasible, reach, readSymbols]

/-- The nonterminals open around two places leave room within the fuel. -/
structure Opens (grammar : Grammar) (fuel : Nat) (opened : List Span) (start stop : Nat) :
    Prop where
  /-- They lie around the places. -/
  around : Around (Rules.ofGrammar grammar).size opened start stop
  /-- The fuel is enough for what can still be opened. -/
  enough : room (Rules.ofGrammar grammar).size opened start stop ≤ fuel

/-- No nonterminal with a number of a block is open between two places. -/
def Fresh (opened : List Span) (block : Nat → Prop) (start stop : Nat) : Prop :=
  ∀ span ∈ opened, start ≤ span.2.1 → span.2.2 ≤ stop → ¬ block span.1

variable {fuel : Nat} {opened : List Span} {block inner : Nat → Prop}

/-- What leaves room between two places leaves room between places that lie closer together. -/
theorem Opens.narrow (opens : Opens grammar fuel opened start stop) {first last : Nat}
    (after : start ≤ first) (ordered : first ≤ last) (before : last ≤ stop) :
    Opens grammar fuel opened first last :=
  ⟨opens.around.narrow after before,
    Nat.le_trans (room_le _ opened after ordered before) opens.enough⟩

/-- What is not open between two places is not open between places that lie closer together, and the
numbers of a part of the block are not. -/
theorem Fresh.narrow (fresh : Fresh opened block start stop) {first last : Nat}
    (after : start ≤ first) (before : last ≤ stop) (part : ∀ index, inner index → block index) :
    Fresh opened inner first last :=
  fun span member above below within => fresh span member (Nat.le_trans after above)
    (Nat.le_trans below before) (part _ within)

/-- A nonterminal that is not open is read by its alternatives, and these are read as its expression
is picked. -/
theorem readAlternatives_picks {index : Nat} {label : Label} {alternatives : List (List Symbol)}
    {expr : Expr} {first last : Nat}
    (has : (Rules.ofGrammar grammar).Has index ⟨label, alternatives⟩)
    (opens : Opens grammar fuel opened first last) (free : (index, first, last) ∉ opened)
    (awaited : (Rules.ofGrammar grammar).Awaited tokens index first)
    (any : ∀ less, Opens grammar less ((index, first, last) :: opened) first last →
      ReadsAny grammar tokens ((ofGrammar grammar tokens).readEither
        ((ofGrammar grammar tokens).readAlternatives less ((index, first, last) :: opened)))
        alternatives expr first last)
    (spans : grammar.Spans tokens expr first last) :
    ∃ trees, (ofGrammar grammar tokens).readAlternatives fuel opened index first last =
      some (wrap label trees) ∧ grammar.Picks tokens expr first last trees := by
  have known : index < (Rules.ofGrammar grammar).size := (Array.getElem?_eq_some_iff.1 has).1
  have less := opens.around.room_lt free known
  have enough := opens.enough
  obtain ⟨rest, rfl⟩ : ∃ rest, fuel = rest + 1 := ⟨fuel - 1, by omega⟩
  have inside : Opens grammar rest ((index, first, last) :: opened) first last :=
    ⟨opens.around.enter free known, by omega⟩
  obtain ⟨trees, taken, picks⟩ := (any rest inside).follows first last (Nat.le_refl _)
    (Nat.le_refl _) (fun symbols member => awaited.waits (has.alternatives ▸ member)) spans
  refine ⟨trees, ?_, picks⟩
  rw [readAlternatives, if_neg (by simpa using free)]
  simp only [Table.rules_reading, Table.rules_ofGrammar, has.label, has.alternatives]
  rw [taken]
  rfl

/-- A symbol is read as an expression is picked between all places of a range, whatever else is
open, if nothing of the block is. -/
def ReadsIn (grammar : Grammar) (tokens : List String) (block : Nat → Prop) (symbol : Symbol)
    (expr : Expr) (low high : Nat) : Prop :=
  ∀ fuel opened start stop, low ≤ start → start ≤ stop → stop ≤ high →
    Opens grammar fuel opened start stop → Fresh opened block start stop →
    Reads grammar tokens ((ofGrammar grammar tokens).readEither
      ((ofGrammar grammar tokens).readAlternatives fuel opened)) symbol expr start stop

variable {low high : Nat}

/-- Less may be open for a greater block. -/
theorem ReadsIn.mono {symbol : Symbol} {expr : Expr}
    (reads : ReadsIn grammar tokens inner symbol expr low high)
    (part : ∀ index, inner index → block index) :
    ReadsIn grammar tokens block symbol expr low high :=
  fun fuel opened start stop above ordered below opens fresh =>
    reads fuel opened start stop above ordered below opens
      (fresh.narrow (Nat.le_refl _) (Nat.le_refl _) part)

/-- A terminal is read wherever it matches the next token. -/
theorem readsIn_literal (text : String) :
    ReadsIn grammar tokens block (.literal text) (.literal text) low high := by
  intro fuel opened start stop _ _ _ _ _
  refine ⟨fun word => Rules.denotes_literal_iff.trans Expr.denotes_literal_iff.symm,
    by simp [Grammar.IsProper, Rules.IsProper], ?_⟩
  intro first last _ _ _ spans
  obtain ⟨rfl, found⟩ := Grammar.spans_literal_iff.1 spans
  have leaf : (ofGrammar grammar tokens).leaf? (.literal text) first =
      some (.leaf ⟨.literal, text, first⟩) :=
    leaf?_eq_some_iff.2 ⟨text, .literal, found, if_pos rfl, rfl⟩
  exact ⟨_, by simp [readItem, leaf], .literal found⟩

/-- The value terminal is read wherever there is a next token. -/
theorem readsIn_value : ReadsIn grammar tokens block .value .value low high := by
  intro fuel opened start stop _ _ _ _ _
  refine ⟨fun word => Rules.denotes_value_iff.trans Expr.denotes_value_iff.symm,
    by simp [Grammar.IsProper, Rules.IsProper], ?_⟩
  intro first last _ _ _ spans
  obtain ⟨rfl, token, found⟩ := Grammar.spans_value_iff.1 spans
  have leaf : (ofGrammar grammar tokens).leaf? .value first = some (.leaf ⟨.value, token, first⟩) :=
    leaf?_eq_some_iff.2 ⟨token, .value, found, rfl, rfl⟩
  exact ⟨_, by simp [readItem, leaf], .value found⟩

/-- The nonterminal of a nested expression is read as the expression is picked, if its alternatives
are, inside of which it does not occur. -/
theorem readsIn_auxiliary (inner : Nat → Prop) {index : Nat} {alternatives : List (List Symbol)}
    {expr : Expr}
    (has : (Rules.ofGrammar grammar).Has index ⟨.auxiliary, alternatives⟩)
    (here : block index) (part : ∀ other, inner other → block other) (away : ¬ inner index)
    (any : ∀ fuel opened start stop, low ≤ start → start ≤ stop → stop ≤ high →
      Opens grammar fuel opened start stop → Fresh opened inner start stop →
      ReadsAny grammar tokens ((ofGrammar grammar tokens).readEither
        ((ofGrammar grammar tokens).readAlternatives fuel opened)) alternatives expr start stop) :
    ReadsIn grammar tokens block (.nonterminal index) expr low high := by
  intro fuel opened start stop above ordered below opens fresh
  have own := any fuel opened start stop above ordered below opens
    (fresh.narrow (Nat.le_refl _) (Nat.le_refl _) part)
  refine ⟨?_, (Rules.isPlain_of_auxiliary has.label).1, ?_⟩
  · intro word
    rw [Rules.denotes_nested_iff (by simp [has.label]), has.alternatives]
    exact own.carries word
  · intro first last after before awaited spans
    have nested : (ofGrammar grammar tokens).rules.label index = .auxiliary := has.label
    have free : (index, first, last) ∉ opened := fun member =>
      fresh _ member after before here
    have later : Fresh ((index, first, last) :: opened) inner first last := by
      intro span member above below within
      rcases List.mem_cons.1 member with rfl | old
      · exact away within
      · exact fresh.narrow after before part span old above below within
    obtain ⟨trees, taken, picks⟩ := readAlternatives_picks has
      (opens.narrow after spans.le before) free (awaited index rfl)
      (fun less inside => any less _ first last (Nat.le_trans above after) spans.le
        (Nat.le_trans before below) inside later) spans
    refine ⟨trees, ?_, picks⟩
    simp only [readItem, readEither, nested]
    exact taken

end Reading

end CommandGrammar
