import Mathlib
import CommandGrammar.Proofs.Chart.Ends
import CommandGrammar.Proofs.Reading.Cycles

/-!
# Reading succeeds

The reader tries every split and every alternative of a nonterminal, but commits itself
inside stars. It nevertheless reads whatever has a clear derivation: an item of a star
can only be refused on a span that is open, and every open span lies around the star, so
after a first item each further one lies strictly inside and is refused nowhere.

The depth that the reader allows is enough. Open spans are nested, and on each of them at
most every nonterminal is open once, so the length of a span and the number of
nonterminals not yet open on it bound the nonterminals still to be opened.
-/

namespace CommandGrammar

namespace Reading

/-- A bound for the number of nonterminals that can still be opened between two places. -/
def room (size : Nat) (opened : List Span) (start stop : Nat) : Nat :=
  (stop - start) * size + (size - opened.countP fun span => span.2 = (start, stop))

/-- The open spans lie around two places, and none is open twice. -/
structure Around (size : Nat) (opened : List Span) (start stop : Nat) : Prop where
  /-- No span is open twice. -/
  nodup : opened.Nodup
  /-- Every open nonterminal is one of the rules. -/
  known : ∀ span ∈ opened, span.1 < size
  /-- Every open span begins no later and ends no earlier. -/
  outside : ∀ span ∈ opened, span.2.1 ≤ start ∧ stop ≤ span.2.2

variable {size : Nat} {opened : List Span} {start stop : Nat}

/-- What lies around two places lies around all places between them. -/
theorem Around.narrow (around : Around size opened start stop) {first last : Nat}
    (after : start ≤ first) (before : last ≤ stop) : Around size opened first last :=
  ⟨around.nodup, around.known, fun span member =>
    ⟨Nat.le_trans (around.outside span member).1 after,
      Nat.le_trans before (around.outside span member).2⟩⟩

/-- A nonterminal that is not open can be opened. -/
theorem Around.enter (around : Around size opened start stop) {index : Nat}
    (free : (index, start, stop) ∉ opened) (below : index < size) :
    Around size ((index, start, stop) :: opened) start stop := by
  refine ⟨List.nodup_cons.2 ⟨free, around.nodup⟩, fun span member => ?_, fun span member => ?_⟩
  · rcases List.mem_cons.1 member with rfl | old
    · exact below
    · exact around.known span old
  · rcases List.mem_cons.1 member with rfl | old
    · exact ⟨Nat.le_refl _, Nat.le_refl _⟩
    · exact around.outside span old

/-- Fewer nonterminals are open on a span than there are, if one is not. -/
theorem Around.count_lt (around : Around size opened start stop) {index : Nat}
    (free : (index, start, stop) ∉ opened) (below : index < size) :
    opened.countP (fun span => span.2 = (start, stop)) < size := by
  let here := opened.filter fun span => span.2 = (start, stop)
  have onSpan : ∀ span ∈ here, span.2 = (start, stop) := fun span member => by
    simpa using (List.mem_filter.1 member).2
  have distinct : (here.map Prod.fst).Nodup :=
    (around.nodup.filter _).map_on fun first inFirst later inLater same =>
      Prod.ext same ((onSpan first inFirst).trans (onSpan later inLater).symm)
  have fresh : index ∉ here.map Prod.fst := by
    intro member
    obtain ⟨span, listed, rfl⟩ := List.mem_map.1 member
    have whole : (span.1, start, stop) = span := Prod.ext rfl (onSpan span listed).symm
    exact free (whole ▸ (List.mem_filter.1 listed).1)
  have inRange : index :: here.map Prod.fst ⊆ List.range size := by
    intro other member
    rw [List.mem_range]
    rcases List.mem_cons.1 member with rfl | old
    · exact below
    · obtain ⟨span, listed, rfl⟩ := List.mem_map.1 old
      exact around.known span (List.mem_filter.1 listed).1
  have bound := ((List.nodup_cons.2 ⟨fresh, distinct⟩).subperm inRange).length_le
  rw [List.length_cons, List.length_map, List.length_range] at bound
  rw [List.countP_eq_length_filter]
  exact bound

/-- There is no more room between places that lie closer together. -/
theorem room_le (size : Nat) (opened : List Span) {first last : Nat} (after : start ≤ first)
    (ordered : first ≤ last)
    (before : last ≤ stop) : room size opened first last ≤ room size opened start stop := by
  unfold room
  by_cases same : first = start ∧ last = stop
  · obtain ⟨rfl, rfl⟩ := same
    exact Nat.le_refl _
  · have shorter : last - first + 1 ≤ stop - start := by omega
    have scaled := Nat.mul_le_mul_right size shorter
    rw [Nat.add_mul, Nat.one_mul] at scaled
    omega

/-- Opening a nonterminal takes from the room. -/
theorem Around.room_lt (around : Around size opened start stop) {index : Nat}
    (free : (index, start, stop) ∉ opened) (below : index < size) :
    room size ((index, start, stop) :: opened) start stop < room size opened start stop := by
  have fewer := around.count_lt free below
  unfold room
  rw [List.countP_cons]
  simp only [decide_true, if_true]
  omega

variable {table : Table} {tokens : List String}

/-- A reader reads every nonterminal between two places that is awaited and has a clear
derivation. -/
def ReadsClear (table : Table) (tokens : List String) (opened : List Span) (read : SpanReader)
    (start stop : Nat) : Prop :=
  ∀ index first last, start ≤ first → last ≤ stop → table.rules.Awaited tokens index first →
    table.rules.Clear tokens opened [.nonterminal index] first last →
    (read index first last).isSome = true

/-- A reader reads every such nonterminal that is no star. -/
def ReadsPlain (table : Table) (tokens : List String) (opened : List Span) (read : SpanReader)
    (start stop : Nat) : Prop :=
  ∀ index first last, start ≤ first → last ≤ stop → table.rules.Awaited tokens index first →
    (∀ item, table.rules.label index ≠ .star item) →
    table.rules.Clear tokens opened [.nonterminal index] first last →
    (read index first last).isSome = true

/-- Symbols with a clear derivation are read by a reader that reads what is clear. -/
theorem readSymbols_isSome (marks : table.nullable = table.rules.nullable)
    (shaped : table.rules.StarShaped) {read : SpanReader} {symbols : List Symbol}
    (reads : ReadsClear table tokens opened read start stop)
    (waits : table.rules.Waits tokens symbols start)
    (clear : table.rules.Clear tokens opened symbols start stop) :
    ((table.reading tokens).readSymbols read symbols start stop).isSome = true := by
  induction symbols generalizing start with
  | nil =>
    cases clear
    simp [readSymbols]
  | cons symbol rest ih =>
    obtain ⟨split, head, tail⟩ := clear.divide
    have headSpans := head.spans shaped
    have ordered := tail.le
    have later := waits.next headSpans
    have begun := head.le
    have others := ih (fun index first last after => reads index first last (by omega)) later tail
    have atTerminal (terminal : ∀ index, symbol ≠ .nonterminal index) :
        ((table.reading tokens).readSymbols read (symbol :: rest) start stop).isSome = true := by
      obtain ⟨rfl, _⟩ := (Rules.spans_terminal_iff terminal).1 headSpans
      obtain ⟨leaf, found⟩ := Option.isSome_iff_exists.1 ((leaf?_isSome_iff terminal).2 headSpans)
      have below : start < stop := ordered
      rw [readSymbols_terminal _ _ terminal, if_pos below, found, Option.bind_some]
      simpa using others
    cases symbol with
    | nonterminal index =>
      rw [readSymbols, List.findSome?_isSome_iff]
      refine ⟨split, (mem_ends marks).2 ⟨waits.awaited, headSpans, ordered⟩, ?_⟩
      rw [if_pos ((isFeasible_iff marks later ordered).2 (tail.spans shaped))]
      obtain ⟨trees, found⟩ := Option.isSome_iff_exists.1
        (reads index start split (Nat.le_refl _) ordered waits.awaited head)
      rw [found]
      simpa using others
    | literal text => exact atTerminal (by simp)
    | value => exact atTerminal (by simp)

/-- The ends of a symbol are ends that it has. -/
theorem spans_of_mem_symbolEnds (marks : table.nullable = table.rules.nullable) {symbol : Symbol}
    {last : Nat} (member : last ∈ (table.reading tokens).symbolEnds symbol start stop) :
    table.rules.Spans tokens [symbol] start last ∧ last ≤ stop := by
  have atTerminal (terminal : ∀ index, symbol ≠ .nonterminal index)
      (member : last ∈ (if start < stop ∧ ((table.reading tokens).leaf? symbol start).isSome
        then [start + 1] else [])) :
      table.rules.Spans tokens [symbol] start last ∧ last ≤ stop := by
    split at member
    · next fits =>
      obtain rfl := List.mem_singleton.1 member
      exact ⟨(leaf?_isSome_iff terminal).1 fits.2, fits.1⟩
    · cases member
  cases symbol with
  | nonterminal index => exact ((mem_ends marks).1 member).2
  | literal text => exact atTerminal (by simp) member
  | value => exact atTerminal (by simp) member

/-- The ends of an item are ends of one that is not empty. -/
theorem itemSpan_of_mem_itemEnds (marks : table.nullable = table.rules.nullable) {item : Symbol}
    {last : Nat} (member : last ∈ (table.reading tokens).itemEnds item start stop) :
    table.rules.ItemSpan tokens item start last ∧ last ≤ stop := by
  obtain ⟨listed, below⟩ := List.mem_filter.1 member
  obtain ⟨spans, bound⟩ := spans_of_mem_symbolEnds marks listed
  exact ⟨⟨by simpa using below, spans⟩, bound⟩

/-- An item that is waited for can end wherever it is derived and not empty. -/
theorem mem_itemEnds (marks : table.nullable = table.rules.nullable) {item : Symbol} {last : Nat}
    (waits : table.rules.Waits tokens [item] start)
    (spans : table.rules.ItemSpan tokens item start last) (bound : last ≤ stop) :
    last ∈ (table.reading tokens).itemEnds item start stop :=
  List.mem_filter.2 ⟨(mem_symbolEnds marks waits).2 ⟨spans.2, bound⟩, by simpa using spans.1⟩

/-- From every place found items lead to the end. -/
theorem chain_of_mem_itemStarts (marks : table.nullable = table.rules.nullable) {item : Symbol}
    {before place : Nat} (member : place ∈ (table.reading tokens).itemStarts item stop before) :
    Relation.ReflTransGen (table.rules.ItemSpan tokens item) place stop := by
  induction before generalizing place with
  | zero =>
    obtain rfl : place = stop := by simpa [itemStarts] using member
    exact .refl
  | succ before ih =>
    simp only [itemStarts] at member
    split at member
    · next found =>
      rcases List.mem_cons.1 member with rfl | old
      · obtain ⟨split, ends, later⟩ := List.any_eq_true.1 found
        exact .head (itemSpan_of_mem_itemEnds marks ends).1 (ih (List.contains_iff_mem.1 later))
      · exact ih old
    · exact ih member

/-- Every place is found from which items lead to the end, if items are waited for there and
wherever they lead. -/
theorem mem_itemStarts (marks : table.nullable = table.rules.nullable) {item : Symbol}
    {before place : Nat} (inside : stop - before ≤ place)
    (chain : Relation.ReflTransGen (table.rules.ItemSpan tokens item) place stop)
    (waits : ∀ later, Relation.ReflTransGen (table.rules.ItemSpan tokens item) place later →
      table.rules.Waits tokens [item] later) :
    place ∈ (table.reading tokens).itemStarts item stop before := by
  induction before generalizing place with
  | zero =>
    obtain rfl : place = stop := Nat.le_antisymm (Rules.chain_le chain) (by simpa using inside)
    simp [itemStarts]
  | succ before ih =>
    simp only [itemStarts]
    by_cases here : stop - before ≤ place
    · have old := ih here chain waits
      split
      · exact List.mem_cons_of_mem _ old
      · exact old
    · obtain rfl : place = stop - (before + 1) := by omega
      rcases Relation.ReflTransGen.cases_head chain with done | ⟨split, step, rest⟩
      · omega
      · have below := step.1
        have nearer : stop - before ≤ split := by omega
        have found := ih nearer rest fun later more => waits later (.head step more)
        have ends := mem_itemEnds marks (waits _ .refl) step (Rules.chain_le rest)
        rw [if_pos (List.any_eq_true.2 ⟨split, ends, List.contains_iff_mem.2 found⟩)]
        exact List.mem_cons_self

/-- An item with a clear derivation is read. -/
theorem readItem_isSome {read : SpanReader} {item : Symbol}
    (plain : ∀ index, item = .nonterminal index → ∀ inner, table.rules.label index ≠ .star inner)
    (reads : ReadsPlain table tokens opened read start stop) {first last : Nat}
    (after : start ≤ first) (before : last ≤ stop) (waits : table.rules.Waits tokens [item] first)
    (shaped : table.rules.StarShaped) (clear : table.rules.Clear tokens opened [item] first last) :
    ((table.reading tokens).readItem read item first last).isSome = true := by
  have atTerminal (terminal : ∀ index, item ≠ .nonterminal index) :
      (if first + 1 = last then ((table.reading tokens).leaf? item first).map ([·])
        else none).isSome = true := by
    have spans := clear.spans shaped
    obtain ⟨rfl, _⟩ := (Rules.spans_terminal_iff terminal).1 spans
    simpa using (leaf?_isSome_iff terminal).2 spans
  cases item with
  | nonterminal index =>
    exact reads index first last after before waits.awaited (plain index rfl) clear
  | literal text => exact atTerminal (by simp)
  | value => exact atTerminal (by simp)

/-- Items are read to the end, if the first one can be and every later one is clear. -/
theorem readItems_isSome (marks : table.nullable = table.rules.nullable)
    (shaped : table.rules.StarShaped) {read : SpanReader} {item : Symbol}
    (plain : ∀ index, item = .nonterminal index → ∀ inner, table.rules.label index ≠ .star inner)
    (reads : ReadsPlain table tokens opened read start stop) {fuel place : Nat} {starts : List Nat}
    (after : start ≤ place) (enough : stop - place ≤ fuel)
    (waits : ∀ later, Relation.ReflTransGen (table.rules.ItemSpan tokens item) place later →
      table.rules.Waits tokens [item] later)
    (begun : ∀ later, Relation.ReflTransGen (table.rules.ItemSpan tokens item) place later →
      (later ∈ starts ↔ Relation.ReflTransGen (table.rules.ItemSpan tokens item) later stop))
    (next : place = stop ∨ ∃ split, table.rules.ClearItem tokens opened item place split ∧
      Relation.ReflTransGen (table.rules.ItemSpan tokens item) split stop)
    (inner : ∀ first last, place < first → last ≤ stop →
      table.rules.ItemSpan tokens item first last →
      table.rules.Clear tokens opened [item] first last) :
    ((table.reading tokens).readItems read item starts stop fuel place).isSome = true := by
  induction fuel generalizing place with
  | zero =>
    have done : place = stop := by
      rcases next with done | ⟨split, step, rest⟩
      · exact done
      · have below := step.1
        have bound := Rules.chain_le rest
        omega
    simp [readItems, done]
  | succ fuel ih =>
    rw [readItems]
    split
    · rfl
    · next unfinished =>
      obtain ⟨split, step, rest⟩ := next.resolve_left unfinished
      have spans : table.rules.ItemSpan tokens item place split := ⟨step.1, step.2.spans shaped⟩
      have bound := Rules.chain_le rest
      have found : ((table.reading tokens).itemEnds item place stop).findSome? (fun split =>
          if starts.contains split then
            ((table.reading tokens).readItem read item place split).map fun trees => (split, trees)
          else none) |>.isSome := by
        refine List.findSome?_isSome_iff.2
          ⟨split, mem_itemEnds marks (waits _ .refl) spans bound, ?_⟩
        rw [if_pos (List.contains_iff_mem.2 ((begun split (.single spans)).2 rest)),
          Option.isSome_map]
        exact readItem_isSome plain reads after bound (waits _ .refl) shaped step.2
      obtain ⟨⟨chosen, trees⟩, taken⟩ := Option.isSome_iff_exists.1 found
      simp only [taken, Option.isSome_map]
      obtain ⟨_, listed, produced⟩ := List.exists_of_findSome?_eq_some taken
      split at produced
      · next known =>
        obtain ⟨_, _, same⟩ := Option.map_eq_some_iff.1 produced
        cases same
        obtain ⟨stretch, limit⟩ := itemSpan_of_mem_itemEnds marks listed
        have below := stretch.1
        have remains := (begun chosen (.single stretch)).1 (List.contains_iff_mem.1 known)
        refine ih (by omega) (by omega) (fun later more => waits later (.head stretch more))
          (fun later more => begun later (.head stretch more)) ?_
          (fun first last later => inner first last (by omega))
        rcases Relation.ReflTransGen.cases_head remains with done | ⟨following, step, more⟩
        · exact .inl done
        · exact .inr ⟨following, ⟨step.1, inner chosen following below (Rules.chain_le more) step⟩,
            more⟩
      · contradiction

/-- Where the items of an awaited star lead another one is waited for. -/
theorem waits_item {rules : Rules} (shaped : rules.StarShaped) {index : Nat} {item : Symbol}
    (star : rules.label index = .star item) (awaited : rules.Awaited tokens index start)
    {place : Nat} (before : Relation.ReflTransGen (rules.ItemSpan tokens item) start place) :
    rules.Waits tokens [item] place := by
  have member : [.nonterminal index, item] ∈ rules.alternatives index := by
    simp [shaped.alternatives star]
  exact (awaited.waits member).next ((Rules.spans_star_iff shaped star).2 before)

/-- Items lead to the end exactly from the places found, wherever the items of an awaited star
lead. -/
theorem mem_itemStarts_iff (marks : table.nullable = table.rules.nullable)
    (shaped : table.rules.StarShaped) {index : Nat} {item : Symbol}
    (star : table.rules.label index = .star item)
    (awaited : table.rules.Awaited tokens index start) {place : Nat}
    (before : Relation.ReflTransGen (table.rules.ItemSpan tokens item) start place) :
    place ∈ (table.reading tokens).itemStarts item stop (stop - start) ↔
      Relation.ReflTransGen (table.rules.ItemSpan tokens item) place stop := by
  constructor
  · exact chain_of_mem_itemStarts marks
  · intro after
    have first := Rules.chain_le before
    exact mem_itemStarts marks (by omega) after
      fun further more => waits_item shaped star awaited (before.trans more)

/-- A star with a clear derivation is read, if all open spans lie around it. -/
theorem readStar_isSome (marks : table.nullable = table.rules.nullable)
    (shaped : table.rules.StarShaped) {read : SpanReader} {index : Nat} {item : Symbol}
    (star : table.rules.label index = .star item) (around : Around size opened start stop)
    (awaited : table.rules.Awaited tokens index start)
    (reads : ReadsPlain table tokens opened read start stop)
    (clear : table.rules.Clear tokens opened [.nonterminal index] start stop) :
    ((table.reading tokens).readStar read item start stop).isSome = true := by
  have chain := (Rules.spans_star_iff shaped star).1 (clear.spans shaped)
  have begun := (mem_itemStarts_iff marks shaped star awaited .refl).2 chain
  rw [readStar]
  simp only [List.contains_iff_mem.2 begun, if_true]
  have plain : ∀ other, item = .nonterminal other →
      ∀ inner, table.rules.label other ≠ .star inner :=
    fun other same _ => shaped.item (same ▸ star)
  refine readItems_isSome marks shaped plain reads (Nat.le_refl _) (Nat.le_refl _)
    (fun later => waits_item shaped star awaited)
    (fun later => mem_itemStarts_iff marks shaped star awaited) ?_ ?_
  · rcases Relation.ReflTransGen.cases_head (clear.chain star) with done | ⟨split, step, rest⟩
    · exact .inl done
    · exact .inr ⟨split, step,
        Relation.ReflTransGen.mono (fun _ _ more => ⟨more.1, more.2.spans shaped⟩) _ _ rest⟩
  · -- the span lies strictly inside every open one, so none of those can occur in it
    intro first last after before spans
    have outside : ∀ span ∈ opened, ¬ (first ≤ span.2.1 ∧ span.2.2 ≤ last) := by
      intro span member inside
      have outer := (around.outside span member).1
      omega
    obtain ⟨height, avoids⟩ := spans.2.avoids outside
    exact avoids.clear shaped

/-- With the items of stars read in a loop, every nonterminal with a clear derivation is read. -/
theorem readEither_isSome (marks : table.nullable = table.rules.nullable)
    (shaped : table.rules.StarShaped) {read : SpanReader}
    (around : Around table.rules.size opened start stop)
    (reads : ReadsPlain table tokens opened read start stop) :
    ReadsClear table tokens opened ((table.reading tokens).readEither read) start stop := by
  intro index first last after before awaited clear
  unfold readEither
  rw [Table.rules_reading]
  split
  · next item star =>
    exact readStar_isSome marks shaped star (around.narrow after before) awaited
      (fun other begins ends later sooner => reads other begins ends (by omega) (by omega)) clear
  · next id named =>
    exact reads index first last after before awaited (by simp [named]) clear
  · next nested =>
    exact reads index first last after before awaited (by simp [nested]) clear

/-- Within the depth that the open spans leave, every nonterminal with a clear derivation is
read. -/
theorem readAlternatives_isSome (marks : table.nullable = table.rules.nullable)
    (shaped : table.rules.StarShaped) {fuel : Nat}
    (around : Around table.rules.size opened start stop)
    (enough : room table.rules.size opened start stop ≤ fuel) :
    ReadsPlain table tokens opened ((table.reading tokens).readAlternatives fuel opened)
      start stop := by
  induction fuel generalizing opened start stop with
  | zero =>
    intro index first last after before awaited plain clear
    obtain ⟨free, alternative, member, _⟩ := clear.opens plain
    have known := Rules.lt_size_of_mem_alternatives member
    have less := (around.narrow after before).room_lt free known
    have bound := room_le table.rules.size opened after clear.le before
    -- The room is used up, but the nonterminal can still be opened.
    omega
  | succ fuel ih =>
    intro index first last after before awaited plain clear
    obtain ⟨free, alternative, member, body⟩ := clear.opens plain
    have here := around.narrow after before
    have known := Rules.lt_size_of_mem_alternatives member
    have less := here.room_lt free known
    have bound := room_le table.rules.size opened after clear.le before
    have reads := readEither_isSome marks shaped (here.enter free known)
      (ih (here.enter free known) (by omega))
    have waits := awaited.waits member
    rw [readAlternatives, if_neg (by simpa using free), Option.isSome_map,
      List.findSome?_isSome_iff]
    refine ⟨alternative, member, ?_⟩
    rw [if_pos ((isFeasible_iff marks waits body.le).2 (body.spans shaped))]
    exact readSymbols_isSome marks shaped reads waits body

/-- At the start there is enough fuel. -/
theorem room_le_depth (table : Table) (tokens : List String) :
    room table.rules.size [] 0 tokens.length ≤ (table.reading tokens).depth := by
  simp only [room, depth, Table.reading, List.size_toArray, List.countP_nil, Nat.sub_zero]
  rw [Nat.add_mul, Nat.mul_add]
  omega

/-- The start nonterminal is read on all tokens that it derives. -/
theorem whole_isSome (marks : table.nullable = table.rules.nullable)
    (shaped : table.rules.StarShaped)
    (derived : table.rules.Spans tokens [.nonterminal table.rules.start] 0 tokens.length) :
    ((table.reading tokens).whole table.rules.start).isSome = true := by
  have outside : ∀ span ∈ ([] : List Span), ¬ (0 ≤ span.2.1 ∧ span.2.2 ≤ tokens.length) := by simp
  obtain ⟨height, avoids⟩ := derived.avoids outside
  have around : Around table.rules.size [] 0 tokens.length := ⟨List.nodup_nil, by simp, by simp⟩
  exact readEither_isSome marks shaped around
    (readAlternatives_isSome marks shaped around (room_le_depth table tokens))
    _ 0 tokens.length (Nat.le_refl _) (Nat.le_refl _) .start (avoids.clear shaped)

end Reading

end CommandGrammar
