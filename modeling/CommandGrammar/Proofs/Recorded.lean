import Mathlib
import CommandGrammar.Proofs.Chart.InPlace
import CommandGrammar.Proofs.Recognition

/-!
# What a chart records

A chart records exactly the spans that predicted nonterminals derive, the empty ones among
them. Its sets are closures that complete nonterminals from earlier places alone; sets that
are filled in place, where a nonterminal done where it began is completed from the unfinished
set, hold the same items.
-/

namespace CommandGrammar

/-- A nonterminal is predicted at a place: it is the start at the first place, or it comes next in
an item of the set. -/
def Chart.Predicts (chart : Chart) (rules : Rules) (index place : Nat) : Prop :=
  (index = rules.start ∧ place = 0) ∨
    ∃ item ∈ chart.sets.getD place [], ∃ rest, item.rest = .nonterminal index :: rest

namespace Table

variable {table : Table} {tokens : List String}

/-- An item stands in a set of the chart exactly if its nonterminal is awaited where it began and
the symbols that it has passed derive the tokens since then. -/
theorem mem_chart_sets_iff (marks : table.nullable = table.rules.nullable) {place : Nat}
    {item : Item} :
    item ∈ (Chart.ofTokens table tokens).sets.getD place [] ↔
      table.rules.Awaited tokens item.head item.origin ∧
        ∃ before, before ++ item.rest ∈ table.rules.alternatives item.head ∧
          table.rules.Spans tokens before item.origin place := by
  change item ∈ (table.sets tokens).getD place [] ↔ _
  by_cases inside : place ≤ tokens.length
  · rw [mem_sets_iff inside, charted_iff marks]
  · have beyond : (table.sets tokens).size ≤ place := by
      rw [sets_size]
      omega
    simp only [Array.getD_eq_getD_getElem?, Array.getElem?_eq_none beyond, Option.getD_none,
      List.not_mem_nil, false_iff]
    rintro ⟨awaited, before, _, spans⟩
    exact inside (spans.le_length awaited.le_length)

/-- Predicted nonterminals are those that are awaited. -/
theorem predicts_iff (marks : table.nullable = table.rules.nullable) {index place : Nat} :
    (Chart.ofTokens table tokens).Predicts table.rules index place ↔
      table.rules.Awaited tokens index place := by
  constructor
  · rintro (⟨rfl, rfl⟩ | ⟨item, member, rest, shape⟩)
    · exact .start
    · obtain ⟨awaited, before, listed, spans⟩ := (mem_chart_sets_iff marks).1 member
      rw [shape] at listed
      exact .inside awaited listed spans
  · intro awaited
    cases awaited with
    | start => exact .inl ⟨rfl, rfl⟩
    | @inside head origin _ _ before rest begun listed read =>
      exact .inr ⟨⟨head, origin, .nonterminal index :: rest⟩,
        (mem_chart_sets_iff marks).2 ⟨begun, before, listed, read⟩, rest, rfl⟩

/-- Symbols span from an awaited place exactly if they derive the tokens that stand there. -/
theorem spans_iff_of_awaited {index start stop : Nat} {symbols : List Symbol}
    (awaited : table.rules.Awaited tokens index start) :
    table.rules.Spans tokens symbols start stop ↔
      start ≤ stop ∧ stop ≤ tokens.length ∧
        table.rules.Derives symbols (tokens.extract start stop) := by
  constructor
  · intro spans
    exact ⟨spans.le, spans.le_length awaited.le_length, spans.derives⟩
  · rintro ⟨ordered, inside, derived⟩
    exact (Rules.spans_iff_derives ordered inside).2 derived

/-- A nonterminal is done in the chart exactly if an item of it is done in the sets filled in
place. -/
theorem FillsInPlace.covers_iff (marks : table.nullable = table.rules.nullable)
    {sets : Array (List Dotted)} (fills : table.FillsInPlace tokens sets) {index start stop : Nat} :
    (Chart.ofTokens table tokens).covers index start stop = true ↔
      ∃ dotted ∈ sets.getD stop [], dotted.head = index ∧ dotted.origin = start ∧
        dotted.rest table.rules = [] := by
  have listed : (Chart.ofTokens table tokens).covers index start stop = true ↔
      ⟨index, start, []⟩ ∈ (table.sets tokens).getD stop [] := by
    rw [CommandGrammar.covers_iff marks, Rules.spans_nonterminal_iff]
    refine Iff.trans ?_ (mem_chart_sets_iff marks).symm
    simp only [List.append_nil]
  rw [listed, fills.mem_sets_iff marks]
  refine exists_congr fun dotted => and_congr_right fun _ => ?_
  rw [Dotted.item, Item.mk.injEq]

end Table

namespace Grammar

/-- A chart is exact. It covers the spans that predicted nonterminals derive and no others; on the
empty spans these are the nonterminals that are marked as nullable. An item is in a set exactly if
its nonterminal is predicted where it began and the symbols it has passed derive the tokens since
then, so an item that waits for a nullable nonterminal stands there past it as well. The sets can
also be filled in place: that comes to an end with the same items and the same spans, and there
the symbols before the dot of each alternative derive the tokens since it began. -/
theorem chart_exact (grammar : Grammar) (tokens : List String) :
    let table := Table.ofGrammar grammar
    let chart := Chart.ofTokens table tokens
    (∀ index start stop, chart.covers index start stop = true ↔
      chart.Predicts table.rules index start ∧ start ≤ stop ∧ stop ≤ tokens.length ∧
        table.rules.Derives [.nonterminal index] (tokens.extract start stop)) ∧
    (∀ index place, chart.covers index place place = true ↔
      chart.Predicts table.rules index place ∧ table.nullable.getD index false = true) ∧
    (∀ place item, item ∈ chart.sets.getD place [] ↔
      chart.Predicts table.rules item.head item.origin ∧ item.origin ≤ place ∧
        place ≤ tokens.length ∧ ∃ before, before ++ item.rest ∈ table.rules.alternatives item.head ∧
          table.rules.Derives before (tokens.extract item.origin place)) ∧
    (∀ place index head origin rest,
      ⟨head, origin, .nonterminal index :: rest⟩ ∈ chart.sets.getD place [] →
        table.nullable.getD index false = true → ⟨head, origin, rest⟩ ∈ chart.sets.getD place []) ∧
    ∃ sets, table.FillsInPlace tokens sets ∧
      (∀ place item, item ∈ chart.sets.getD place [] ↔
        ∃ dotted ∈ sets.getD place [], dotted.item table.rules = item) ∧
      (∀ index start stop, chart.covers index start stop = true ↔
        ∃ dotted ∈ sets.getD stop [], dotted.head = index ∧ dotted.origin = start ∧
          dotted.rest table.rules = []) ∧
      ∀ place, ∀ dotted ∈ sets.getD place [],
        dotted.number < (table.rules.alternatives dotted.head).length ∧
        dotted.dot ≤ (dotted.alternative table.rules).length ∧ dotted.origin ≤ place ∧
        table.rules.Derives (dotted.passed table.rules) (tokens.extract dotted.origin place) := by
  intro table chart
  have marks : table.nullable = table.rules.nullable := Table.marks_ofGrammar grammar
  obtain ⟨sets, fills⟩ := Table.exists_fillsInPlace marks tokens
  refine ⟨?_, ?_, ?_, ?_, sets, fills, ?_, ?_, ?_⟩
  · intro index start stop
    rw [covers_iff marks, Table.predicts_iff marks]
    exact and_congr_right fun awaited => Table.spans_iff_of_awaited awaited
  · intro index place
    rw [covers_iff marks, Table.predicts_iff marks, marks, Rules.nullable_iff]
    exact and_congr_right fun _ => ⟨Rules.Spans.derives_nil, fun derived => derived.spans_nil place⟩
  · intro place item
    rw [Table.mem_chart_sets_iff marks, Table.predicts_iff marks]
    refine and_congr_right fun awaited => ?_
    simp only [Table.spans_iff_of_awaited awaited]
    tauto
  · intro place index head origin rest member nullable
    obtain ⟨awaited, before, listed, spans⟩ := (Table.mem_chart_sets_iff marks).1 member
    rw [marks, Rules.nullable_iff] at nullable
    exact (Table.mem_chart_sets_iff marks).2 ⟨awaited, before ++ [.nonterminal index],
      by simpa using listed, spans.append (nullable.spans_nil place)⟩
  · exact fun place item => fills.mem_sets_iff marks
  · exact fun index start stop => fills.covers_iff marks
  · intro place dotted member
    have belongs := (fills.mem_iff marks).1 member
    exact ⟨belongs.known, belongs.within, belongs.spans.le, belongs.spans.derives⟩

/-- In the chart of one token of the tangled grammar the second node covers the empty span at the
end. The item that is done there was added in place, and what it has passed derives nothing. -/
theorem tangled_chart :
    let table := Table.ofGrammar tangled
    let chart := Chart.ofTokens table ["a"]
    chart.covers 1 1 1 = true ∧ chart.Predicts table.rules 1 1 ∧
      table.rules.Derives [.nonterminal 1] [] ∧ table.nullable.getD 1 false = true ∧
      ∃ sets, table.FillsInPlace ["a"] sets ∧ ∃ dotted ∈ sets.getD 1 [],
        dotted.item table.rules = ⟨1, 1, []⟩ ∧
          table.rules.Derives (dotted.passed table.rules) [] := by
  intro table chart
  obtain ⟨spans, empty, _, _, sets, fills, same, _, passed⟩ := chart_exact tangled ["a"]
  have covers : chart.covers 1 1 1 = true := by decide +kernel
  have member : (⟨1, 1, []⟩ : Item) ∈ chart.sets.getD 1 [] := by decide +kernel
  obtain ⟨predicted, _, _, derived⟩ := (spans 1 1 1).1 covers
  obtain ⟨dotted, listed, item⟩ := (same 1 ⟨1, 1, []⟩).1 member
  obtain ⟨_, _, _, before⟩ := passed 1 dotted listed
  have origin : dotted.origin = 1 := congrArg Item.origin item
  rw [origin] at before
  exact ⟨covers, predicted, derived, ((empty 1 1).1 covers).2, sets, fills, dotted, listed, item,
    before⟩

end Grammar

end CommandGrammar
