import Mathlib
import CommandGrammar.Proofs.Policy.Expressions

/-!
# Reading repetitions follows the policy

A repetition is read in three ways: the items that it must have stand one after the other,
the further ones of a bounded repetition are a chain of options, and those of an unbounded
one are read in a loop. All three pick the same: each item takes the longest span from
which the repetition can go on within its bounds.
-/

namespace CommandGrammar

namespace Reading

variable {grammar : Grammar} {tokens : List String} {start stop : Nat} {read : SpanReader}
  {item : Symbol} {inner : Expr}

/-- An expression derives no empty sequence of tokens. -/
def IsSolid (grammar : Grammar) (tokens : List String) (expr : Expr) : Prop :=
  ∀ first last, grammar.Spans tokens expr first last → first < last

/-- The bound of a repetition with one more item. -/
def raised (max : Option Nat) : Option Nat := max.map (· + 1)

/-- One item less brings the bound back. -/
theorem raised_less (max : Option Nat) : (raised max).map (· - 1) = max := by
  cases max <;> rfl

/-- With one more item the bound is not zero. -/
theorem raised_ne_zero (max : Option Nat) : raised max ≠ some 0 := by
  cases max <;> simp [raised]

/-- A repetition with one more item goes on like the repetition, after an item. -/
theorem spans_raised_iff {min : Nat} {max : Option Nat} (inside : start ≤ tokens.length) :
    grammar.Spans tokens (.repetition inner min (raised max)) start stop ↔
      min = 0 ∧ start = stop ∨ ∃ split, grammar.Spans tokens inner start split ∧
        grammar.Spans tokens (.repetition inner (min - 1) max) split stop := by
  rw [Grammar.spans_repetition_iff inside, raised_less]
  simp only [ne_eq, raised_ne_zero, not_false_eq_true, true_and]

/-- An unbounded repetition is at its end, or goes on after an item. -/
theorem spans_none_iff (inside : start ≤ tokens.length) :
    grammar.Spans tokens (.repetition inner 0 none) start stop ↔
      start = stop ∨ ∃ split, grammar.Spans tokens inner start split ∧
        grammar.Spans tokens (.repetition inner 0 none) split stop := by
  change grammar.Spans tokens (.repetition inner 0 (raised none)) start stop ↔ _
  rw [spans_raised_iff inside]
  simp only [true_and, Nat.zero_sub]

/-- An unbounded repetition may have no item. -/
theorem spans_none_refl (inside : start ≤ tokens.length) :
    grammar.Spans tokens (.repetition inner 0 none) start start :=
  (spans_none_iff inside).2 (.inl rfl)

/-- An unbounded repetition may have one more item before it. -/
theorem spans_none_cons {split : Nat} (item : grammar.Spans tokens inner start split)
    (rest : grammar.Spans tokens (.repetition inner 0 none) split stop) :
    grammar.Spans tokens (.repetition inner 0 none) start stop :=
  (spans_none_iff (item.le.trans item.le_length)).2 (.inr ⟨split, item, rest⟩)

/-- An item and what a repetition goes on with are read as a repetition of one more item is
picked, unless that is at its end. -/
theorem readSymbols_repetition (closed : grammar.isClosed = true)
    (bounded : grammar.isBounded = true) (solid : IsSolid grammar tokens inner) {min : Nat}
    {max : Option Nat} {rest : List Symbol}
    (head : Reads grammar tokens read item inner start stop)
    (tail : ReadsAll grammar tokens read rest (.repetition inner (min - 1) max) start stop)
    {first last split : Nat} (after : start ≤ first) (before : last ≤ stop)
    (waits : (Rules.ofGrammar grammar).Waits tokens (item :: rest) first)
    (headSpans : grammar.Spans tokens inner first split)
    (tailSpans : grammar.Spans tokens (.repetition inner (min - 1) max) split last) :
    ∃ trees, (ofGrammar grammar tokens).readSymbols read (item :: rest) first last = some trees ∧
      grammar.Picks tokens (.repetition inner min (raised max)) first last trees := by
  obtain ⟨place, front, back, taken, pickFront, pickBack, longest⟩ :=
    readSymbols_longest closed bounded head tail after before
      (fun place spans => Nat.le_trans after spans.le) waits headSpans tailSpans
  have below := solid _ _ (pickFront.spans waits.le_length)
  rw [← raised_less max] at pickBack longest
  exact ⟨front ++ back, taken,
    .repetitionItem (raised_ne_zero max) below pickFront pickBack longest⟩

/-- An item that a repetition must have, and what it goes on with. -/
theorem readsAll_repetition (closed : grammar.isClosed = true) (bounded : grammar.isBounded = true)
    (solid : IsSolid grammar tokens inner) {min : Nat} {max : Option Nat} {rest : List Symbol}
    (head : Reads grammar tokens read item inner start stop)
    (tail : ReadsAll grammar tokens read rest (.repetition inner min max) start stop) :
    ReadsAll grammar tokens read (item :: rest) (.repetition inner (min + 1) (raised max))
      start stop := by
  refine ⟨?_, List.forall_mem_cons.2 ⟨head.proper, tail.proper⟩, ?_⟩
  · intro word
    rw [Rules.denotes_cons_iff, Grammar.denotes_iff_derives, Grammar.derives_repetition_step,
      raised_less]
    simp only [head.carries _, tail.carries _, Grammar.denotes_iff_derives, Nat.add_eq_zero_iff,
      one_ne_zero, and_false, false_and, false_or, ne_eq, raised_ne_zero, not_false_eq_true,
      true_and, Nat.add_sub_cancel]
  · intro first last after before waits spans
    rcases (spans_raised_iff waits.le_length).1 spans with ⟨none, _⟩ | ⟨split, one, more⟩
    · cases none
    · exact readSymbols_repetition closed bounded solid head tail after before waits one more

/-- An optional item and what a repetition goes on with. -/
theorem readsAny_link (closed : grammar.isClosed = true) (bounded : grammar.isBounded = true)
    (solid : IsSolid grammar tokens inner) {max : Option Nat} {link : Symbol}
    (head : Reads grammar tokens read item inner start stop)
    (tail : Reads grammar tokens read link (.repetition inner 0 max) start stop) :
    ReadsAny grammar tokens read [[item, link], []] (.repetition inner 0 (raised max))
      start stop := by
  have marks := Table.marks_ofGrammar grammar
  have proper : ∀ symbol ∈ [item, link], grammar.IsProper symbol := by
    simpa using ⟨head.proper, tail.proper⟩
  have carries : grammar.CarriesAny [[item, link], []] (.repetition inner 0 (raised max)) := by
    intro word
    rw [Grammar.denotes_iff_derives, Grammar.derives_repetition_step, raised_less]
    simp only [List.mem_cons, List.not_mem_nil, or_false, exists_eq_or_imp, exists_eq_left,
      Rules.denotes_nil_iff, ne_eq, raised_ne_zero, not_false_eq_true, true_and]
    rw [Rules.denotes_cons_iff, or_comm]
    simp only [head.carries _, tail.carries _, Grammar.denotes_iff_derives]
  refine ⟨carries, ?_⟩
  intro first last after before waits spans
  have own := waits [item, link] List.mem_cons_self
  have ordered := spans.le
  by_cases done : first = last
  · subst done
    refine ⟨[], ?_, .repetitionEnd inner _ first⟩
    have refused : ¬ (ofGrammar grammar tokens).isFeasible [item, link] first first = true := by
      intro found
      obtain ⟨split, one, more⟩ :=
        Rules.spans_cons_iff.1 ((isFeasible_iff marks own ordered).1 found)
      have below := solid _ _ ((head.spans_iff closed bounded own.le_length).1 one)
      have above := more.le
      omega
    rw [List.findSome?_cons, if_neg refused]
    simp [isFeasible, reach, readSymbols]
  · obtain ⟨split, one, more⟩ :=
      ((spans_raised_iff own.le_length).1 spans).resolve_left fun ends => done ends.2
    obtain ⟨trees, taken, picks⟩ := readSymbols_repetition closed bounded solid head
      (tail.all closed bounded) after before own one more
    have feasible : (ofGrammar grammar tokens).isFeasible [item, link] first last = true := by
      refine (isFeasible_iff marks own ordered).2 (Rules.spans_cons_iff.2 ⟨split, ?_, ?_⟩)
      · exact (head.spans_iff closed bounded own.le_length).2 one
      · exact (tail.spans_iff closed bounded one.le_length).2 more
    refine ⟨trees, ?_, picks⟩
    simp only [List.findSome?_cons, feasible, if_true, taken]

/-- A repetition of no item is at its end. -/
theorem readsAny_none : ReadsAny grammar tokens read [[]] (.repetition inner 0 (some 0))
    start stop := by
  constructor
  · intro word
    rw [Rules.exists_mem_singleton, Rules.denotes_nil_iff, Grammar.denotes_iff_derives,
      Grammar.derives_repetition_step]
    simp
  · intro first last _ _ waits spans
    have inside := (waits [] List.mem_cons_self).le_length
    rcases (Grammar.spans_repetition_iff inside).1 spans with ⟨_, rfl⟩ | ⟨more, _⟩
    · exact ⟨[], by simp [isFeasible, reach, readSymbols], .repetitionEnd inner _ first⟩
    · exact absurd rfl more

variable {low high : Nat} {block : Nat → Prop}

/-- The links of a chain are read as a repetition of at most so many items is picked. -/
theorem readsIn_chain (closed : grammar.isClosed = true) (bounded : grammar.isBounded = true)
    (solid : IsSolid grammar tokens inner) {number links link : Nat}
    (placed : Placed (Rules.ofGrammar grammar).Has number
      (Flatten.chainTail number item links).2)
    (inside : link ≤ links) (items : ReadsIn grammar tokens block item inner low high)
    (apart : ∀ other, block (number + other) → links < other) :
    ReadsIn grammar tokens (fun index => (∃ other ≤ link, index = number + other) ∨ block index)
      (.nonterminal (number + link)) (.repetition inner 0 (some link)) low high := by
  have last := (placed_cons_iff.1 placed).1
  induction link with
  | zero =>
    refine readsIn_auxiliary block last (.inl ⟨0, Nat.le_refl _, rfl⟩) (fun _ within => .inr within)
      (fun within => absurd (apart 0 within) (Nat.not_lt_zero _)) ?_
    intro fuel opened start stop _ _ _ _ _
    exact readsAny_none
  | succ link ih =>
    have has := Rules.has_link placed inside
    have before := ih (by omega)
    refine readsIn_auxiliary (fun index => (∃ other ≤ link, index = number + other) ∨ block index)
      has (.inl ⟨link + 1, Nat.le_refl _, rfl⟩) ?_ ?_ ?_
    · rintro index (⟨other, below, same⟩ | within)
      · exact .inl ⟨other, Nat.le_succ_of_le below, same⟩
      · exact .inr within
    · rintro (⟨other, below, same⟩ | within)
      · omega
      · have above := apart (link + 1) within
        omega
    · intro fuel opened start stop above ordered below opens fresh
      have head := items fuel opened start stop above ordered below opens
        (fresh.narrow (Nat.le_refl _) (Nat.le_refl _) fun _ within => .inr within)
      exact readsAny_link closed bounded solid head
        (before fuel opened start stop above ordered below opens fresh)

/-- The ends of a symbol are listed by falling places. -/
theorem symbolEnds_falling {symbol : Symbol} :
    ((ofGrammar grammar tokens).symbolEnds symbol start stop).Pairwise (· ≥ ·) := by
  have atTerminal : (if start < stop ∧
      ((ofGrammar grammar tokens).leaf? symbol start).isSome then [start + 1] else []).Pairwise
        (· ≥ ·) := by
    split
    · exact List.pairwise_singleton _ _
    · exact .nil
  cases symbol with
  | nonterminal index => exact ends_sorted
  | literal text => exact atTerminal
  | value => exact atTerminal

/-- A symbol that is no star is read by its alternatives or as a leaf. -/
theorem readItem_plain (plain : ∀ index other, item = .nonterminal index →
      (Rules.ofGrammar grammar).label index ≠ .star other) {first last : Nat} :
    (ofGrammar grammar tokens).readItem ((ofGrammar grammar tokens).readEither read) item
        first last =
      (ofGrammar grammar tokens).readItem read item first last := by
  cases item with
  | nonterminal index =>
    simp only [readItem, readEither, Table.rules_reading, Table.rules_ofGrammar]
    cases label : (Rules.ofGrammar grammar).label index with
    | star other => exact absurd label (plain index other rfl)
    | named id => rfl
    | auxiliary => rfl
  | literal text => rfl
  | value => rfl

/-- Of the ends of an item the longest one from which the repetition goes on is tried first. -/
theorem findSome?_itemEnds (closed : grammar.isClosed = true) (bounded : grammar.isBounded = true)
    {reader : SpanReader} (head : Reads grammar tokens reader item inner start stop)
    {starts : List Nat} {place split last : Nat} (below : place < split)
    (waits : (Rules.ofGrammar grammar).Waits tokens [item] place)
    (begun : ∀ later, grammar.Spans tokens (.repetition inner 0 none) place later →
      (later ∈ starts ↔ grammar.Spans tokens (.repetition inner 0 none) later last))
    (itemSpans : grammar.Spans tokens inner place split)
    (restSpans : grammar.Spans tokens (.repetition inner 0 none) split last)
    (longest : grammar.IsLongest tokens inner (.repetition inner 0 none) place split last)
    {front : List Tree}
    (taken : (ofGrammar grammar tokens).readItem read item place split = some front) :
    (((ofGrammar grammar tokens).itemEnds item place last).findSome? fun split =>
      if starts.contains split then
        ((ofGrammar grammar tokens).readItem read item place split).map fun trees => (split, trees)
      else none) = some (split, front) := by
  have marks := Table.marks_ofGrammar grammar
  have flat := (head.spans_iff closed bounded waits.le_length).2 itemSpans
  refine findSome?_of_falling (symbolEnds_falling.filter _)
    (mem_itemEnds marks waits ⟨below, flat⟩ restSpans.le) ?_ ?_
  · have reached := spans_none_cons itemSpans (spans_none_refl itemSpans.le_length)
    have listed := (begun split reached).2 restSpans
    rw [if_pos (List.contains_iff_mem.2 listed), taken]
    rfl
  · intro later member above
    obtain ⟨laterFlat, _⟩ := itemSpan_of_mem_itemEnds marks member
    have laterSpans := (head.spans_iff closed bounded waits.le_length).1 laterFlat.2
    have reached := spans_none_cons laterSpans (spans_none_refl laterSpans.le_length)
    refine if_neg fun listed => longest later above ⟨laterSpans, ?_⟩
    exact (begun later reached).1 (List.contains_iff_mem.1 listed)

/-- The items of a star are read as an unbounded repetition is picked. -/
theorem readItems_picks (closed : grammar.isClosed = true) (bounded : grammar.isBounded = true)
    (solid : IsSolid grammar tokens inner)
    (head : Reads grammar tokens ((ofGrammar grammar tokens).readEither read) item inner start stop)
    (plain : ∀ index other, item = .nonterminal index →
      (Rules.ofGrammar grammar).label index ≠ .star other)
    {starts : List Nat} {fuel place last : Nat} (after : start ≤ place) (before : last ≤ stop)
    (enough : last - place ≤ fuel)
    (waits : ∀ later, grammar.Spans tokens (.repetition inner 0 none) place later →
      (Rules.ofGrammar grammar).Waits tokens [item] later)
    (begun : ∀ later, grammar.Spans tokens (.repetition inner 0 none) place later →
      (later ∈ starts ↔ grammar.Spans tokens (.repetition inner 0 none) later last))
    (spans : grammar.Spans tokens (.repetition inner 0 none) place last) :
    ∃ trees, (ofGrammar grammar tokens).readItems read item starts last fuel place = some trees ∧
      grammar.Picks tokens (.repetition inner 0 none) place last trees := by
  induction fuel generalizing place with
  | zero =>
    obtain rfl : place = last := Nat.le_antisymm spans.le (by omega)
    exact ⟨[], by simp [readItems], .repetitionEnd inner none place⟩
  | succ fuel ih =>
    have own := waits place (spans_none_refl (spans.1.trans spans.2.1))
    by_cases done : place = last
    · subst done
      exact ⟨[], by simp [readItems], .repetitionEnd inner none place⟩
    · obtain ⟨next, one, more⟩ := (spans_none_iff own.le_length).1 spans |>.resolve_left done
      obtain ⟨split, itemSpans, restSpans, longest⟩ := Grammar.exists_longest one more
      have below := solid _ _ itemSpans
      obtain ⟨front, readFront, pickFront⟩ := head.follows place split after
        (Nat.le_trans restSpans.le before) (awaited_of_waits own) itemSpans
      rw [readItem_plain plain] at readFront
      obtain ⟨back, readBack, pickBack⟩ := ih (Nat.le_trans after itemSpans.le) (by omega)
        (fun later rest => waits later (spans_none_cons itemSpans rest))
        (fun later rest => begun later (spans_none_cons itemSpans rest)) restSpans
      refine ⟨front ++ back, ?_, .repetitionItem (by simp) below pickFront pickBack longest⟩
      have step := findSome?_itemEnds closed bounded head below own begun itemSpans restSpans
        longest readFront
      rw [readItems, if_neg done]
      simp only [step, readBack, Option.map_some]

/-- A star is read as an unbounded repetition is picked. -/
theorem readsIn_star (closed : grammar.isClosed = true) (bounded : grammar.isBounded = true)
    (solid : IsSolid grammar tokens inner) {number : Nat}
    (has : (Rules.ofGrammar grammar).Has number ⟨.star item, [[.nonterminal number, item], []]⟩)
    (items : ReadsIn grammar tokens block item inner low high) :
    ReadsIn grammar tokens block (.nonterminal number) (.repetition inner 0 none) low high := by
  intro fuel opened start stop above ordered below opens fresh
  have marks := Table.marks_ofGrammar grammar
  have head := items fuel opened start stop above ordered below opens fresh
  have shaped := Grammar.starShaped closed
  have carries : grammar.Carries [.nonterminal number] (.repetition inner 0 none) := by
    intro word
    rw [Rules.denotes_star_iff has, Expr.denotes_repetition_iff]
    simp only [head.carries _]
    simp
  have proper : grammar.IsProper (.nonterminal number) := by
    rintro _ ⟨⟩
    exact .inr (by simp [has.label])
  refine ⟨carries, proper, ?_⟩
  intro first last after before awaited spans
  have inside : first ≤ tokens.length := spans.le.trans spans.le_length
  have flat : ∀ {begins ends}, begins ≤ tokens.length →
      (Relation.ReflTransGen ((Rules.ofGrammar grammar).ItemSpan tokens item) begins ends ↔
        grammar.Spans tokens (.repetition inner 0 none) begins ends) := by
    intro begins ends below
    rw [← Rules.spans_star_iff shaped has.label]
    exact carries.spans_iff closed bounded (by simpa using proper) below
  have waits : ∀ later, grammar.Spans tokens (.repetition inner 0 none) first later →
      (Rules.ofGrammar grammar).Waits tokens [item] later := by
    intro later reached
    have member : [.nonterminal number, item] ∈ (Rules.ofGrammar grammar).alternatives number := by
      simp [has.alternatives]
    exact ((awaited number rfl).waits member).next
      ((Rules.spans_star_iff shaped has.label).2 ((flat inside).2 reached))
  have plain : ∀ index other, item = .nonterminal index →
      (Rules.ofGrammar grammar).label index ≠ .star other := by
    rintro index other rfl
    exact shaped.item has.label
  have begun : ∀ later, grammar.Spans tokens (.repetition inner 0 none) first later →
      (later ∈ (ofGrammar grammar tokens).itemStarts item last (last - first) ↔
        grammar.Spans tokens (.repetition inner 0 none) later last) := by
    intro later reached
    have ordered := reached.le
    have bound := reached.le_length
    rw [← flat bound]
    constructor
    · exact chain_of_mem_itemStarts marks
    · intro chain
      have within := Rules.chain_le chain
      refine mem_itemStarts marks (by omega) chain fun further more => waits further ?_
      exact (flat inside).1 (((flat inside).2 reached).trans more)
  obtain ⟨trees, taken, picks⟩ := readItems_picks closed bounded solid head plain after before
    (Nat.le_refl _) waits begun spans
  refine ⟨trees, ?_, picks⟩
  have labelled : (ofGrammar grammar tokens).rules.label number = .star item := has.label
  have listed := (begun first (spans_none_refl inside)).2 spans
  simp only [readItem, readEither, labelled, readStar, List.contains_iff_mem.2 listed, if_true]
  exact taken

end Reading

end CommandGrammar
