import Mathlib
import CommandGrammar.Proofs.Reading.Runs
import CommandGrammar.Proofs.Reading.Success

/-!
# The calls that reading makes

Reading all tokens calls the reader on nonterminals, symbols and items over and over. Every
such call is awaited where it begins, the open spans lie around it, and the depth that is
left is enough for what can still be opened: each call hands these facts on to the calls
inside it.
-/

namespace CommandGrammar

namespace Reading

/-- Reading all tokens may make a call, with a depth left and spans open. Of the places and the
alternatives that are tried in turn, each one counts. -/
inductive Called (reading : Reading) : Nat → List Span → Task → Prop where
  /-- The start nonterminal is read on all tokens. -/
  | whole : Called reading reading.depth [] (.read reading.rules.start 0 reading.tokens.size)
  /-- A nonterminal that is not open is opened, and an alternative that can match is followed. -/
  | alternative {fuel index start stop : Nat} {opened : List Span} {symbols : List Symbol}
      (call : Called reading (fuel + 1) opened (.read index start stop))
      (plain : ∀ item, reading.rules.label index ≠ .star item)
      (free : (index, start, stop) ∉ opened)
      (member : symbols ∈ reading.rules.alternatives index)
      (feasible : reading.isFeasible symbols start stop = true) :
      Called reading fuel ((index, start, stop) :: opened) (.follow symbols start stop)
  /-- After a leaf the other symbols are followed. -/
  | leaf {fuel start stop : Nat} {opened : List Span} {terminal : Symbol} {rest : List Symbol}
      (call : Called reading fuel opened (.follow (terminal :: rest) start stop))
      (inside : start < stop) (found : (reading.leaf? terminal start).isSome = true) :
      Called reading fuel opened (.follow rest (start + 1) stop)
  /-- A nonterminal among symbols is read up to an end from which the others can match. -/
  | nonterminal {fuel index start split stop : Nat} {opened : List Span} {rest : List Symbol}
      (call : Called reading fuel opened (.follow (.nonterminal index :: rest) start stop))
      (member : split ∈ reading.chart.ends index start stop)
      (feasible : reading.isFeasible rest split stop = true) :
      Called reading fuel opened (.read index start split)
  /-- After such a nonterminal the other symbols are followed. -/
  | rest {fuel index start split stop : Nat} {opened : List Span} {rest : List Symbol}
      (call : Called reading fuel opened (.follow (.nonterminal index :: rest) start stop))
      (member : split ∈ reading.chart.ends index start stop)
      (feasible : reading.isFeasible rest split stop = true) :
      Called reading fuel opened (.follow rest split stop)
  /-- A star is read by its items, if they lead to its end. -/
  | star {fuel index start stop : Nat} {opened : List Span} {item : Symbol}
      (call : Called reading fuel opened (.read index start stop))
      (star : reading.rules.label index = .star item)
      (leads : start ∈ reading.itemStarts item stop (stop - start)) :
      Called reading fuel opened (.items item (reading.itemStarts item stop (stop - start))
        start stop)
  /-- An item is read up to an end from which items lead on. -/
  | item {fuel other place split stop : Nat} {opened : List Span} {starts : List Nat}
      (call : Called reading fuel opened (.items (.nonterminal other) starts place stop))
      (member : split ∈ reading.itemEnds (.nonterminal other) place stop)
      (leads : split ∈ starts) :
      Called reading fuel opened (.read other place split)
  /-- After such an item the next ones are read. -/
  | turn {fuel place split stop : Nat} {opened : List Span} {item : Symbol} {starts : List Nat}
      (call : Called reading fuel opened (.items item starts place stop))
      (member : split ∈ reading.itemEnds item place stop) (leads : split ∈ starts) :
      Called reading fuel opened (.items item starts split stop)

variable {table : Table} {tokens : List String} {opened : List Span} {fuel start stop : Nat}

/-- The open spans lie around two places, and the depth left is enough between them. -/
structure Provided (size : Nat) (opened : List Span) (fuel start stop : Nat) : Prop where
  /-- The places are in order. -/
  ordered : start ≤ stop
  /-- The open spans lie around them. -/
  around : Around size opened start stop
  /-- The depth left is a bound for what can still be opened. -/
  enough : room size opened start stop ≤ fuel

/-- What is provided between two places is provided between all places there. -/
theorem Provided.narrow {size first last : Nat} (provided : Provided size opened fuel start stop)
    (after : start ≤ first) (ordered : first ≤ last) (before : last ≤ stop) :
    Provided size opened fuel first last :=
  ⟨ordered, provided.around.narrow after before,
    Nat.le_trans (room_le size opened after ordered before) provided.enough⟩

/-- A nonterminal can be opened at the cost of one level. -/
theorem Provided.enter {size index : Nat} (provided : Provided size opened (fuel + 1) start stop)
    (free : (index, start, stop) ∉ opened) (below : index < size) :
    Provided size ((index, start, stop) :: opened) fuel start stop := by
  have less := provided.around.room_lt free below
  have enough := provided.enough
  exact ⟨provided.ordered, provided.around.enter free below, by omega⟩

/-- What a call is about is waited for where it begins. -/
def Task.Expected (rules : Rules) (tokens : List String) : Task → Prop
  | .read index start _ => rules.Awaited tokens index start
  | .follow symbols start _ => rules.Waits tokens symbols start
  | .items symbol _ start _ => ∃ index origin, rules.label index = .star symbol ∧
      rules.Awaited tokens index origin ∧
      Relation.ReflTransGen (rules.ItemSpan tokens symbol) origin start
  | .choose .. | .divide .. | .turn .. | .item .. => True

/-- The places between which a call reads. -/
def Task.bounds : Task → Nat × Nat
  | .read _ start stop | .choose _ start stop | .follow _ start stop | .divide _ _ _ start stop
  | .items _ _ start stop | .turn _ _ _ start stop | .item _ start stop => (start, stop)

/-- Every call is expected where it begins, the open spans lie around it, and it has depth
enough. -/
theorem Called.provided (marks : table.nullable = table.rules.nullable)
    (shaped : table.rules.StarShaped) {task : Task}
    (call : (table.reading tokens).Called fuel opened task) :
    task.Expected table.rules tokens ∧
      Provided table.rules.size opened fuel task.bounds.1 task.bounds.2 := by
  induction call with
  | whole =>
    have nothing : Around table.rules.size [] 0 tokens.length :=
      ⟨List.nodup_nil, by simp, by simp⟩
    exact ⟨.start, Nat.zero_le _, nothing, room_le_depth table tokens⟩
  | alternative _ _ free member _ ih =>
    obtain ⟨awaited, provided⟩ := ih
    exact ⟨awaited.waits member, provided.enter free (Rules.lt_size_of_mem_alternatives member)⟩
  | @leaf _ start _ _ terminal _ _ inside found ih =>
    obtain ⟨waits, provided⟩ := ih
    have bare : ∀ index, terminal ≠ .nonterminal index := by
      rintro index rfl
      obtain ⟨_, leaf⟩ := Option.isSome_iff_exists.1 found
      obtain ⟨_, _, _, matched, _⟩ := leaf?_eq_some_iff.1 leaf
      cases matched
    have spans := (leaf?_isSome_iff bare).1 found
    exact ⟨waits.next spans, provided.narrow (Nat.le_succ start) inside (Nat.le_refl _)⟩
  | nonterminal _ member _ ih =>
    obtain ⟨waits, provided⟩ := ih
    obtain ⟨awaited, spans, below⟩ := (mem_ends marks).1 member
    exact ⟨awaited, provided.narrow (Nat.le_refl _) spans.le below⟩
  | rest _ member _ ih =>
    obtain ⟨waits, provided⟩ := ih
    obtain ⟨_, spans, below⟩ := (mem_ends marks).1 member
    exact ⟨waits.next spans, provided.narrow spans.le below (Nat.le_refl _)⟩
  | @star _ index start _ _ _ _ star _ ih =>
    obtain ⟨awaited, provided⟩ := ih
    exact ⟨⟨index, start, star, awaited, .refl⟩, provided⟩
  | item _ member _ ih =>
    obtain ⟨⟨index, origin, star, awaited, before⟩, provided⟩ := ih
    obtain ⟨spans, below⟩ := itemSpan_of_mem_itemEnds marks member
    exact ⟨(waits_item shaped star awaited before).awaited,
      provided.narrow (Nat.le_refl _) (Nat.le_of_lt spans.1) below⟩
  | turn _ member _ ih =>
    obtain ⟨⟨index, origin, star, awaited, before⟩, provided⟩ := ih
    obtain ⟨spans, below⟩ := itemSpan_of_mem_itemEnds marks member
    exact ⟨⟨index, origin, star, awaited, before.tail spans⟩,
      provided.narrow (Nat.le_of_lt spans.1) below (Nat.le_refl _)⟩

end Reading

end CommandGrammar
