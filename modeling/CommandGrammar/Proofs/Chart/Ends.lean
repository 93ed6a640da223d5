import Mathlib
import CommandGrammar.Chart.Reading
import CommandGrammar.Proofs.Chart.Sets

/-!
# Where nonterminals end

The spans that a chart records are those of awaited nonterminals, each with the tokens
that it derives, and the ends listed for a nonterminal are in falling order. Wherever
symbols are waited for, the ends of the first of them are therefore all the ends that it
can have, and whether the symbols can match up to a place is decided exactly.
-/

namespace CommandGrammar

variable {table : Table} {tokens : List String}

/-- A nonterminal is done in a set exactly if an item of it with no symbol to come is there. -/
theorem mem_doneIn {set : List Item} {head origin : Nat} :
    (head, origin) ∈ doneIn set ↔ (⟨head, origin, []⟩ : Item) ∈ set := by
  simp only [doneIn, List.mem_filterMap]
  constructor
  · rintro ⟨⟨itemHead, itemOrigin, rest⟩, member, found⟩
    cases rest with
    | nil =>
      obtain ⟨rfl, rfl⟩ : itemHead = head ∧ itemOrigin = origin := by simpa using found
      exact member
    | cons => simp at found
  · intro member
    exact ⟨_, member, by simp⟩

/-- The spans from a place are those of the nonterminals that are done somewhere and began there. -/
theorem mem_spansFrom {done : Array (List (Nat × Nat))} {start head stop : Nat} :
    (head, stop) ∈ spansFrom done start ↔
      stop < done.size ∧ (head, start) ∈ done.getD stop [] := by
  simp only [spansFrom, List.mem_flatMap, List.mem_reverse, List.mem_range, List.mem_filterMap,
    Prod.exists]
  constructor
  · rintro ⟨place, below, index, origin, member, found⟩
    split at found
    · next same =>
      cases found
      exact ⟨below, same ▸ member⟩
    · contradiction
  · rintro ⟨below, member⟩
    exact ⟨stop, below, head, start, member, by simp⟩

/-- The spans from a place are listed by falling ends. -/
theorem spansFrom_sorted {done : Array (List (Nat × Nat))} {start : Nat} :
    (spansFrom done start).Pairwise fun first later => later.2 ≤ first.2 := by
  have ends : ∀ place span, span ∈ (done.getD place []).filterMap (fun entry =>
      if entry.2 = start then some (entry.1, place) else none) → span.2 = place := by
    intro place span member
    obtain ⟨entry, _, found⟩ := List.mem_filterMap.1 member
    simp only [Option.ite_none_right_eq_some, Option.some.injEq] at found
    exact found.2 ▸ rfl
  unfold spansFrom
  refine List.pairwise_flatMap.2 ⟨fun place _ => ?_, ?_⟩
  · refine List.pairwise_of_forall_mem_list fun first inFirst later inLater => ?_
    exact Nat.le_of_eq ((ends place later inLater).trans (ends place first inFirst).symm)
  · refine List.pairwise_reverse.2 (List.pairwise_lt_range.imp
      fun below first inFirst later inLater => ?_)
    rw [ends _ first inFirst, ends _ later inLater]
    exact Nat.le_of_lt below

/-- The spans that a chart records from a place. -/
theorem mem_chart_spans (marks : table.nullable = table.rules.nullable) {index start stop : Nat} :
    (index, stop) ∈ (Chart.ofTokens table tokens).spans.getD start [] ↔
      table.rules.Awaited tokens index start ∧
        table.rules.Spans tokens [.nonterminal index] start stop := by
  have listed : ∀ place ≤ tokens.length,
      ((index, start) ∈ ((table.sets tokens).map doneIn).getD place [] ↔
        table.rules.Awaited tokens index start ∧
          table.rules.Spans tokens [.nonterminal index] start place) := by
    intro place inside
    have held : ⟨index, start, []⟩ ∈ (table.sets tokens).getD place [] ↔ _ :=
      Table.mem_sets_iff inside
    rw [Table.charted_iff marks] at held
    rw [Array.getD_eq_getD_getElem?, Array.getElem?_map]
    rw [Array.getD_eq_getD_getElem?] at held
    rw [Array.getElem?_eq_getElem (by rw [Table.sets_size]; omega)] at held ⊢
    simp only [Option.map_some, Option.getD_some, mem_doneIn] at held ⊢
    simp only [held, List.append_nil, Rules.spans_nonterminal_iff]
  simp only [Chart.ofTokens]
  rw [Array.getD_eq_getD_getElem?, Array.getElem?_map]
  by_cases inside : start < (table.sets tokens).size
  · rw [Array.getElem?_range, if_pos inside, Option.map_some, Option.getD_some, mem_spansFrom,
      Array.size_map]
    rw [Table.sets_size] at inside ⊢
    constructor
    · rintro ⟨below, member⟩
      exact (listed stop (by omega)).1 member
    · rintro ⟨awaited, spans⟩
      have below := spans.le_length (by omega)
      exact ⟨by omega, (listed stop below).2 ⟨awaited, spans⟩⟩
  · rw [Array.getElem?_range, if_neg inside]
    rw [Table.sets_size] at inside
    constructor
    · intro member
      simp at member
    · rintro ⟨awaited, _⟩
      exact absurd (Nat.lt_succ_of_le awaited.le_length) inside

/-- A chart covers exactly the spans that awaited nonterminals derive. -/
theorem covers_iff (marks : table.nullable = table.rules.nullable) {index start stop : Nat} :
    (Chart.ofTokens table tokens).covers index start stop = true ↔
      table.rules.Awaited tokens index start ∧
        table.rules.Spans tokens [.nonterminal index] start stop := by
  rw [Chart.covers, List.contains_iff_mem, mem_chart_spans marks]

/-- The ends listed for a nonterminal are all that it can have, up to a place. -/
theorem mem_ends (marks : table.nullable = table.rules.nullable) {index start stop last : Nat} :
    last ∈ (Chart.ofTokens table tokens).ends index start stop ↔
      table.rules.Awaited tokens index start ∧
        table.rules.Spans tokens [.nonterminal index] start last ∧ last ≤ stop := by
  rw [← and_assoc, ← mem_chart_spans marks]
  simp only [Chart.ends, List.mem_filterMap, Prod.exists]
  constructor
  · rintro ⟨head, place, member, found⟩
    split at found
    · next fits =>
      cases found
      exact ⟨fits.1 ▸ member, fits.2⟩
    · contradiction
  · rintro ⟨member, below⟩
    exact ⟨index, last, member, by simp [below]⟩

/-- The ends of a nonterminal are listed in falling order. -/
theorem ends_sorted {index start stop : Nat} :
    ((Chart.ofTokens table tokens).ends index start stop).Pairwise (· ≥ ·) := by
  unfold Chart.ends
  have sorted : ((Chart.ofTokens table tokens).spans.getD start []).Pairwise
      fun first later => later.2 ≤ first.2 := by
    simp only [Chart.ofTokens]
    rw [Array.getD_eq_getD_getElem?, Array.getElem?_map]
    cases (Array.range (table.sets tokens).size)[start]? with
    | none => simp
    | some place => exact spansFrom_sorted
  refine sorted.filterMap _ fun first later ordered x fromFirst y fromLater => ?_
  simp only [Option.ite_none_right_eq_some, Option.some.injEq] at fromFirst fromLater
  rw [← fromFirst.2, ← fromLater.2]
  exact ordered

namespace Rules

/-- Symbols are waited for at a place: they are what is left of an alternative of an awaited
nonterminal after the symbols before them have derived the tokens up to the place. -/
def Waits (rules : Rules) (tokens : List String) (symbols : List Symbol) (place : Nat) : Prop :=
  ∃ head origin before, rules.Awaited tokens head origin ∧
    before ++ symbols ∈ rules.alternatives head ∧ rules.Spans tokens before origin place

variable {rules : Rules}

/-- The next nonterminal that is waited for is awaited. -/
theorem Waits.awaited {index place : Nat} {rest : List Symbol}
    (waits : rules.Waits tokens (.nonterminal index :: rest) place) :
    rules.Awaited tokens index place := by
  obtain ⟨head, origin, before, awaited, member, read⟩ := waits
  exact .inside awaited member read

/-- After the next symbol the others are waited for. -/
theorem Waits.next {symbol : Symbol} {rest : List Symbol} {place later : Nat}
    (waits : rules.Waits tokens (symbol :: rest) place)
    (spans : rules.Spans tokens [symbol] place later) : rules.Waits tokens rest later := by
  obtain ⟨head, origin, before, awaited, member, read⟩ := waits
  exact ⟨head, origin, before ++ [symbol], awaited, by simpa using member, read.append spans⟩

/-- The alternatives of an awaited nonterminal are waited for. -/
theorem Awaited.waits {index place : Nat} (awaited : rules.Awaited tokens index place)
    {alternative : List Symbol} (member : alternative ∈ rules.alternatives index) :
    rules.Waits tokens alternative place :=
  ⟨index, place, [], awaited, member, .nil place⟩

/-- Symbols are waited for among the tokens. -/
theorem Waits.le_length {symbols : List Symbol} {place : Nat}
    (waits : rules.Waits tokens symbols place) : place ≤ tokens.length := by
  obtain ⟨_, _, _, awaited, _, read⟩ := waits
  exact read.le_length awaited.le_length

end Rules

/-- The reading of tokens from their chart. -/
def Table.reading (table : Table) (tokens : List String) : Reading :=
  ⟨table.rules, tokens.toArray, Chart.ofTokens table tokens⟩

/-- The rules of a reading are those of the table. -/
theorem Table.rules_reading (table : Table) (tokens : List String) :
    (table.reading tokens).rules = table.rules := rfl

/-- The rules of the table of a grammar are its flat rules. -/
theorem Table.rules_ofGrammar (grammar : Grammar) :
    (Table.ofGrammar grammar).rules = Rules.ofGrammar grammar := rfl

/-- The marks of the table of a grammar are those of its rules. -/
theorem Table.marks_ofGrammar (grammar : Grammar) :
    (Table.ofGrammar grammar).nullable = (Table.ofGrammar grammar).rules.nullable := rfl

namespace Reading

/-- A terminal is read as a leaf, and the symbols after it from the next place on. -/
theorem readSymbols_terminal (reading : Reading) (read : SpanReader) {symbol : Symbol}
    (terminal : ∀ index, symbol ≠ .nonterminal index) (rest : List Symbol) (start stop : Nat) :
    reading.readSymbols read (symbol :: rest) start stop =
      if start < stop then (reading.leaf? symbol start).bind fun tree =>
        (reading.readSymbols read rest (start + 1) stop).map (tree :: ·)
      else none := by
  rw [readSymbols]
  · cases reading.leaf? symbol start <;> rfl
  · exact terminal

/-- The leaf of a token that a symbol matches. -/
theorem leaf?_eq_some_iff {symbol : Symbol} {place : Nat} {tree : Tree} :
    (table.reading tokens).leaf? symbol place = some tree ↔
      ∃ token kind, tokens[place]? = some token ∧ symbol.matches? token = some kind ∧
        tree = .leaf ⟨kind, token, place⟩ := by
  simp only [leaf?, Table.reading, List.getElem?_toArray, Option.bind_eq_bind,
    Option.bind_eq_some_iff, Option.pure_def, Option.some.injEq, @eq_comm _ tree]
  constructor
  · rintro ⟨token, found, kind, matched, rfl⟩
    exact ⟨token, kind, found, matched, rfl⟩
  · rintro ⟨token, kind, found, matched, rfl⟩
    exact ⟨token, found, kind, matched, rfl⟩

/-- A terminal has a leaf exactly where it derives the next token. -/
theorem leaf?_isSome_iff {symbol : Symbol} (terminal : ∀ index, symbol ≠ .nonterminal index)
    {place : Nat} :
    ((table.reading tokens).leaf? symbol place).isSome = true ↔
      table.rules.Spans tokens [symbol] place (place + 1) := by
  rw [Rules.spans_terminal_iff terminal, Option.isSome_iff_exists]
  simp only [leaf?_eq_some_iff, true_and]
  constructor
  · rintro ⟨_, token, kind, found, matched, _⟩
    exact ⟨token, kind, found, matched⟩
  · rintro ⟨token, kind, found, matched⟩
    exact ⟨_, token, kind, found, matched, rfl⟩

/-- The ends of a symbol that is waited for are all that it can have, up to a place. -/
theorem mem_symbolEnds (marks : table.nullable = table.rules.nullable) {symbol : Symbol}
    {rest : List Symbol} {start stop last : Nat}
    (waits : table.rules.Waits tokens (symbol :: rest) start) :
    last ∈ (table.reading tokens).symbolEnds symbol start stop ↔
      table.rules.Spans tokens [symbol] start last ∧ last ≤ stop := by
  have atTerminal (terminal : ∀ index, symbol ≠ .nonterminal index) :
      last ∈ (if start < stop ∧ ((table.reading tokens).leaf? symbol start).isSome
        then [start + 1] else []) ↔ table.rules.Spans tokens [symbol] start last ∧ last ≤ stop := by
    constructor
    · intro member
      split at member
      · next fits =>
        obtain rfl := List.mem_singleton.1 member
        exact ⟨(leaf?_isSome_iff terminal).1 fits.2, fits.1⟩
      · cases member
    · rintro ⟨spans, below⟩
      obtain ⟨rfl, _⟩ := (Rules.spans_terminal_iff terminal).1 spans
      rw [if_pos ⟨below, (leaf?_isSome_iff terminal).2 spans⟩]
      exact List.mem_singleton_self _
  cases symbol with
  | nonterminal index =>
    change last ∈ (Chart.ofTokens table tokens).ends index start stop ↔ _
    rw [mem_ends marks]
    exact and_iff_right waits.awaited
  | literal text => exact atTerminal (by simp)
  | value => exact atTerminal (by simp)

/-- The places that symbols can reach from places where they are waited for. -/
theorem mem_reach (marks : table.nullable = table.rules.nullable) {symbols : List Symbol}
    {places : List Nat} {stop last : Nat}
    (waits : ∀ place ∈ places, place ≤ stop ∧ table.rules.Waits tokens symbols place) :
    last ∈ (table.reading tokens).reach stop symbols places ↔
      ∃ place ∈ places, table.rules.Spans tokens symbols place last ∧ last ≤ stop := by
  induction symbols generalizing places with
  | nil =>
    simp only [reach, Rules.spans_nil_iff]
    constructor
    · intro member
      exact ⟨last, member, rfl, (waits last member).1⟩
    · rintro ⟨place, member, rfl, _⟩
      exact member
  | cons symbol rest ih =>
    have ends : ∀ split, split ∈ (places.flatMap fun place =>
        (table.reading tokens).symbolEnds symbol place stop).eraseDups ↔
          ∃ place ∈ places, table.rules.Spans tokens [symbol] place split ∧ split ≤ stop := by
      intro split
      rw [List.mem_eraseDups, List.mem_flatMap]
      exact exists_congr fun place => and_congr_right fun member =>
        mem_symbolEnds marks (waits place member).2
    rw [reach, ih fun split member => by
      obtain ⟨place, listed, spans, below⟩ := (ends split).1 member
      exact ⟨below, (waits place listed).2.next spans⟩]
    constructor
    · rintro ⟨split, member, tail, below⟩
      obtain ⟨place, listed, head, _⟩ := (ends split).1 member
      exact ⟨place, listed, Rules.spans_cons_iff.2 ⟨split, head, tail⟩, below⟩
    · rintro ⟨place, listed, spans, below⟩
      obtain ⟨split, head, tail⟩ := Rules.spans_cons_iff.1 spans
      exact ⟨split, (ends split).2 ⟨place, listed, head, Nat.le_trans tail.le below⟩, tail, below⟩

/-- Symbols that are waited for are found to match exactly the tokens that they derive. -/
theorem isFeasible_iff (marks : table.nullable = table.rules.nullable) {symbols : List Symbol}
    {start stop : Nat} (waits : table.rules.Waits tokens symbols start) (ordered : start ≤ stop) :
    (table.reading tokens).isFeasible symbols start stop = true ↔
      table.rules.Spans tokens symbols start stop := by
  rw [isFeasible, List.contains_iff_mem, mem_reach marks (by simpa using ⟨ordered, waits⟩)]
  simp

end Reading

end CommandGrammar
