import Mathlib
import CommandGrammar.Chart
import CommandGrammar.Proofs.Chart.Closure
import CommandGrammar.Proofs.Chart.Nullable
import CommandGrammar.Proofs.Chart.Spans

/-!
# What the sets of a chart hold

The set of a place is collected as a closure that looks at earlier sets. The first part
shows that this is one relation, generated by five steps: start, prediction, passing
over a nullable nonterminal, scanning and completion from an earlier place. The second
part gives the relation its meaning: an item stands at a place exactly if its nonterminal
is awaited where it began and the symbols already passed derive the tokens since then.

Completion never looks into the set it adds to. A nonterminal that is done where it began
has derived nothing, so it is nullable, and every item waiting for it passes over it.
-/

namespace CommandGrammar

namespace Table

/-- The items of all sets, by the steps that add them. -/
inductive Charted (table : Table) (tokens : List String) : Nat → Item → Prop where
  /-- The alternatives of the start begin at the first place. -/
  | start {item : Item} (member : item ∈ table.predicted 0 table.rules.start) :
      Charted table tokens 0 item
  /-- Where a nonterminal is waited for, its alternatives begin. -/
  | predict {place index : Nat} {item next : Item} {rest : List Symbol}
      (waiting : Charted table tokens place item) (wanted : item.rest = .nonterminal index :: rest)
      (member : next ∈ table.predicted place index) : Charted table tokens place next
  /-- A nullable nonterminal that is waited for is passed over. -/
  | pass {place index : Nat} {item : Item} {rest : List Symbol}
      (waiting : Charted table tokens place item) (wanted : item.rest = .nonterminal index :: rest)
      (nullable : table.nullable.getD index false = true) :
      Charted table tokens place { item with rest }
  /-- A terminal that matches the next token is passed, and so is the token. -/
  | scan {place : Nat} {token : String} {item next : Item}
      (waiting : Charted table tokens place item) (found : tokens[place]? = some token)
      (scanned : item.scan? token = some next) : Charted table tokens (place + 1) next
  /-- Items that waited at an earlier place for what is done now go on. -/
  | complete {place : Nat} {item parent next : Item} (done : Charted table tokens place item)
      (finished : item.rest = []) (earlier : item.origin < place)
      (waiting : Charted table tokens item.origin parent)
      (passed : parent.over? item.head = some next) : Charted table tokens place next

/-- All items whose derivation began at most at a place. -/
def itemsUpTo (table : Table) (place : Nat) : List Item :=
  table.rules.nonterminals.toList.zipIdx.flatMap fun (nonterminal, head) =>
    nonterminal.alternatives.flatMap fun alternative =>
      alternative.tails.flatMap fun rest =>
        (List.range (place + 1)).map fun origin => ⟨head, origin, rest⟩

variable {table : Table} {tokens : List String}

/-- The items of a nonterminal's alternatives are as many as there are ways to put a dot into
them, for each place where they can begin. -/
theorem length_alternatives_items (head place : Nat) (alternatives : List (List Symbol)) :
    (alternatives.flatMap fun alternative => alternative.tails.flatMap fun rest =>
        (List.range (place + 1)).map fun origin => (⟨head, origin, rest⟩ : Item)).length =
      alternatives.foldr (fun alternative count => alternative.length + 1 + count) 0 *
        (place + 1) := by
  induction alternatives with
  | nil => simp
  | cons alternative rest ih =>
    simp only [List.flatMap_cons, List.length_append, ih, List.length_flatMap, List.length_map,
      List.length_range, List.map_const', List.length_tails, List.sum_replicate, smul_eq_mul,
      List.foldr_cons]
    ring

/-- The bound of a set is the number of items that it can hold. -/
theorem length_itemsUpTo (place : Nat) :
    (table.itemsUpTo place).length = table.dotCount * (place + 1) := by
  unfold itemsUpTo dotCount
  generalize table.rules.nonterminals.toList = nonterminals
  suffices ∀ first, ((nonterminals.zipIdx first).flatMap fun (nonterminal, head) =>
      nonterminal.alternatives.flatMap fun alternative => alternative.tails.flatMap fun rest =>
        (List.range (place + 1)).map fun origin => (⟨head, origin, rest⟩ : Item)).length =
      nonterminals.foldr (fun nonterminal total => nonterminal.alternatives.foldr
        (fun alternative count => alternative.length + 1 + count) total) 0 * (place + 1) from
    this 0
  have carried (alternatives : List (List Symbol)) (total : Nat) :
      alternatives.foldr (fun alternative count => alternative.length + 1 + count) total =
        alternatives.foldr (fun alternative count => alternative.length + 1 + count) 0 + total := by
    induction alternatives with
    | nil => simp
    | cons alternative rest ih =>
      simp only [List.foldr_cons, ih]
      omega
  intro first
  induction nonterminals generalizing first with
  | nil => simp
  | cons nonterminal rest ih =>
    simp only [List.zipIdx_cons, List.flatMap_cons, List.length_append, ih (first + 1),
      length_alternatives_items, List.foldr_cons]
    rw [carried nonterminal.alternatives (List.foldr _ 0 rest), Nat.add_mul]

/-- An item is listed exactly if it began in time and its symbols to come end an alternative of
its nonterminal. -/
theorem mem_itemsUpTo {place : Nat} {item : Item} :
    item ∈ table.itemsUpTo place ↔
      item.origin ≤ place ∧ ∃ alternative ∈ table.rules.alternatives item.head,
        item.rest <:+ alternative := by
  obtain ⟨head, origin, rest⟩ := item
  simp only [itemsUpTo, List.mem_flatMap, List.mem_map, List.mem_range, List.mem_tails,
    Prod.exists, List.mem_zipIdx_iff_getElem?, Array.getElem?_toList, Item.mk.injEq,
    Rules.alternatives]
  constructor
  · rintro ⟨nonterminal, index, found, alternative, member, suffix, ends, bound, below, rfl, rfl,
    rfl⟩
    rw [found]
    exact ⟨by omega, alternative, member, ends⟩
  · rintro ⟨below, alternative, member, ends⟩
    cases found : table.rules.nonterminals[head]? with
    | none => simp [found] at member
    | some nonterminal =>
      rw [found] at member
      exact ⟨nonterminal, head, found, alternative, member, rest, ends, origin, by omega, rfl, rfl,
        rfl⟩

/-- The next symbol passed over was the nonterminal. -/
theorem over?_eq_some_iff {item next : Item} {index : Nat} :
    item.over? index = some next ↔
      ∃ rest, item.rest = .nonterminal index :: rest ∧ next = { item with rest } := by
  unfold Item.over?
  split
  · next other rest shape =>
    rw [shape]
    by_cases same : other = index
    · simp [same, eq_comm]
    · simp [same]
  · next shape =>
    simp only [reduceCtorEq, false_iff, not_exists, not_and]
    intro rest wanted
    exact absurd wanted (shape index rest)

/-- The next symbol scanned matched the token. -/
theorem scan?_eq_some_iff {item next : Item} {token : String} :
    item.scan? token = some next ↔
      ∃ symbol rest kind, item.rest = symbol :: rest ∧ symbol.matches? token = some kind ∧
        next = { item with rest } := by
  unfold Item.scan?
  split
  · next none_left => simp [none_left]
  · next symbol rest shape =>
    simp only [shape, List.cons.injEq, Option.map_eq_some_iff]
    constructor
    · rintro ⟨kind, matched, rfl⟩
      exact ⟨symbol, rest, kind, ⟨rfl, rfl⟩, matched, rfl⟩
    · rintro ⟨_, _, kind, ⟨rfl, rfl⟩, matched, rfl⟩
      exact ⟨kind, matched, rfl⟩

/-- The predicted items are the alternatives of the nonterminal, begun at the place. -/
theorem mem_predicted {place index : Nat} {item : Item} :
    item ∈ table.predicted place index ↔
      item.head = index ∧ item.origin = place ∧ item.rest ∈ table.rules.alternatives index := by
  obtain ⟨head, origin, rest⟩ := item
  simp only [predicted, List.mem_map, Item.mk.injEq]
  constructor
  · rintro ⟨alternative, member, rfl, rfl, rfl⟩
    exact ⟨rfl, rfl, member⟩
  · rintro ⟨rfl, rfl, member⟩
    exact ⟨rest, member, rfl, rfl, rfl⟩

/-- The predicted items of a place are among those that can be there. -/
theorem mem_itemsUpTo_of_predicted {place index : Nat} {item : Item}
    (member : item ∈ table.predicted place index) : item ∈ table.itemsUpTo place := by
  obtain ⟨head, origin, listed⟩ := mem_predicted.1 member
  exact mem_itemsUpTo.2 ⟨Nat.le_of_eq origin, item.rest, head ▸ listed, List.suffix_refl _⟩

/-- An item past its next symbol is among those that can be, if the item is and is no later. -/
theorem mem_itemsUpTo_of_rest {place later : Nat} {item : Item} {symbol : Symbol}
    {rest : List Symbol} (member : item ∈ table.itemsUpTo place) (ordered : item.origin ≤ later)
    (shape : item.rest = symbol :: rest) : { item with rest } ∈ table.itemsUpTo later := by
  obtain ⟨_, alternative, listed, ends⟩ := mem_itemsUpTo.1 member
  rw [shape] at ends
  exact mem_itemsUpTo.2 ⟨ordered, alternative, listed, (List.suffix_cons _ _).trans ends⟩

/-- What an item of a set adds to it. -/
theorem mem_expand {earlier : Array (List Item)} {item next : Item} :
    next ∈ table.expand earlier item ↔
      (item.rest = [] ∧ ∃ parent ∈ earlier.getD item.origin [],
        parent.over? item.head = some next) ∨
      ∃ index rest, item.rest = .nonterminal index :: rest ∧
        (next ∈ table.predicted earlier.size index ∨
          table.nullable.getD index false = true ∧ next = { item with rest }) := by
  unfold expand
  split
  · next finished => simp [finished]
  · next index rest wanted =>
    rw [wanted, List.mem_append]
    constructor
    · rintro (predicted | passed)
      · exact .inr ⟨index, rest, rfl, .inl predicted⟩
      · split at passed
        · next nullable =>
          exact .inr ⟨index, rest, rfl, .inr ⟨nullable, List.mem_singleton.1 passed⟩⟩
        · cases passed
    · rintro (⟨impossible, _⟩ | ⟨_, _, same, added⟩)
      · cases impossible
      · cases same
        rcases added with predicted | ⟨nullable, rfl⟩
        · exact .inl predicted
        · rw [if_pos nullable]
          exact .inr (List.mem_singleton_self _)
  · next wanted => simp [wanted]
  · next wanted => simp [wanted]

/-- The items of all sets are among those that can be. -/
theorem Charted.mem_itemsUpTo {place : Nat} {item : Item}
    (charted : table.Charted tokens place item) : item ∈ table.itemsUpTo place := by
  induction charted with
  | start member => exact mem_itemsUpTo_of_predicted member
  | predict _ _ member _ => exact mem_itemsUpTo_of_predicted member
  | pass _ wanted _ ih => exact mem_itemsUpTo_of_rest ih (Table.mem_itemsUpTo.1 ih).1 wanted
  | scan _ _ scanned ih =>
    obtain ⟨symbol, rest, kind, shape, _, rfl⟩ := scan?_eq_some_iff.1 scanned
    exact mem_itemsUpTo_of_rest ih (Nat.le_succ_of_le (Table.mem_itemsUpTo.1 ih).1) shape
  | complete _ _ earlier _ passed _ ih =>
    obtain ⟨rest, shape, rfl⟩ := over?_eq_some_iff.1 passed
    have began := (Table.mem_itemsUpTo.1 ih).1
    exact mem_itemsUpTo_of_rest ih (by omega) shape

/-- The items that begin the set of a place: those of the start, or those past the last token. -/
def Begun (table : Table) (tokens : List String) (place : Nat) (item : Item) : Prop :=
  (place = 0 ∧ item ∈ table.predicted 0 table.rules.start) ∨
    ∃ before token waiting, place = before + 1 ∧ tokens[before]? = some token ∧
      table.Charted tokens before waiting ∧ waiting.scan? token = some item

/-- What begins a set belongs to it. -/
theorem Begun.charted {place : Nat} {item : Item} (begun : table.Begun tokens place item) :
    table.Charted tokens place item := by
  rcases begun with ⟨rfl, member⟩ | ⟨before, token, waiting, rfl, found, charted, scanned⟩
  · exact .start member
  · exact .scan charted found scanned

section

variable {earlier : Array (List Item)} {seeds : List Item}

/-- An item that waits in one of the earlier sets was added there by the steps. -/
theorem charted_of_mem (finished : ∀ place < earlier.size, ∀ item,
      item ∈ earlier.getD place [] ↔ table.Charted tokens place item)
    {origin : Nat} {parent : Item} (member : parent ∈ earlier.getD origin []) :
    origin < earlier.size ∧ table.Charted tokens origin parent := by
  by_cases below : origin < earlier.size
  · exact ⟨below, (finished origin below parent).1 member⟩
  · simp [Array.getD_eq_getD_getElem?, Array.getElem?_eq_none (Nat.le_of_not_lt below)] at member

/-- What an item adds that can be at a place can be there too. -/
theorem mem_itemsUpTo_of_expand (finished : ∀ place < earlier.size, ∀ item,
      item ∈ earlier.getD place [] ↔ table.Charted tokens place item) :
    ∀ item ∈ table.itemsUpTo earlier.size, ∀ next ∈ table.expand earlier item,
      next ∈ table.itemsUpTo earlier.size := by
  intro item member next added
  rcases mem_expand.1 added with ⟨_, parent, waiting, passed⟩ | ⟨index, rest, wanted, added⟩
  · obtain ⟨below, charted⟩ := charted_of_mem finished waiting
    obtain ⟨rest, shape, rfl⟩ := over?_eq_some_iff.1 passed
    have began := (mem_itemsUpTo.1 charted.mem_itemsUpTo).1
    exact mem_itemsUpTo_of_rest charted.mem_itemsUpTo (by omega) shape
  · rcases added with predicted | ⟨_, rfl⟩
    · exact mem_itemsUpTo_of_predicted predicted
    · exact mem_itemsUpTo_of_rest member (mem_itemsUpTo.1 member).1 wanted

/-- The set of a place leaves nothing to expand, if the earlier ones are complete and it begins as
it should. -/
theorem grows_nextSet (finished : ∀ place < earlier.size, ∀ item,
      item ∈ earlier.getD place [] ↔ table.Charted tokens place item)
    (begun : ∀ item, item ∈ seeds ↔ table.Begun tokens earlier.size item) :
    Grows (table.expand earlier) seeds.eraseDups seeds.eraseDups (table.nextSet earlier seeds) :=
  grows_closure (fun item member => ((begun item).1 member).charted.mem_itemsUpTo)
    (mem_itemsUpTo_of_expand finished) (Nat.le_of_eq (length_itemsUpTo _))

/-- The set of a place is then complete. -/
theorem mem_nextSet_iff (finished : ∀ place < earlier.size, ∀ item,
      item ∈ earlier.getD place [] ↔ table.Charted tokens place item)
    (begun : ∀ item, item ∈ seeds ↔ table.Begun tokens earlier.size item) {item : Item} :
    item ∈ table.nextSet earlier seeds ↔ table.Charted tokens earlier.size item := by
  rw [nextSet, mem_closure_iff (fun x member => ((begun x).1 member).charted.mem_itemsUpTo)
    (mem_itemsUpTo_of_expand finished) (Nat.le_of_eq (length_itemsUpTo _))]
  constructor
  · intro reached
    induction reached with
    | seed member => exact ((begun _).1 member).charted
    | step _ added charted =>
      rcases mem_expand.1 added with ⟨done, parent, waiting, passed⟩ | ⟨index, rest, wanted, added⟩
      · obtain ⟨below, before⟩ := charted_of_mem finished waiting
        exact .complete charted done below before passed
      · rcases added with predicted | ⟨nullable, rfl⟩
        · exact .predict charted wanted predicted
        · exact .pass charted wanted nullable
  · intro charted
    -- A parent that is completed waits at an earlier place, so its set is already finished.
    generalize here : earlier.size = place at charted begun
    induction charted with
    | start member => exact .seed ((begun _).2 (.inl ⟨rfl, member⟩))
    | predict _ wanted member ih =>
      exact .step (ih here begun) (mem_expand.2 (.inr ⟨_, _, wanted, .inl (here ▸ member)⟩))
    | pass _ wanted nullable ih =>
      exact .step (ih here begun) (mem_expand.2 (.inr ⟨_, _, wanted, .inr ⟨nullable, rfl⟩⟩))
    | scan waiting found scanned _ =>
      exact .seed ((begun _).2 (.inr ⟨_, _, _, rfl, found, waiting, scanned⟩))
    | complete _ done below waiting passed ih _ =>
      have listed := (finished _ (here ▸ below) _).2 waiting
      exact .step (ih here begun) (mem_expand.2 (.inl ⟨done, _, listed, passed⟩))

end

/-- Before the first place there is nothing to complete. -/
theorem finished_nil : ∀ place < (#[] : Array (List Item)).size, ∀ item,
    item ∈ (#[] : Array (List Item)).getD place [] ↔ table.Charted tokens place item := by
  intro place below
  simp at below

/-- The start begins the first set. -/
theorem begun_first (item : Item) :
    item ∈ table.predicted 0 table.rules.start ↔
      table.Begun tokens (#[] : Array (List Item)).size item := by
  simp [Begun]

/-- What is past the last token begins the set after it. -/
theorem begun_scanned {sets : Array (List Item)} {place : Nat} {token : String}
    (size : sets.size = place + 1) (read : tokens[place]? = some token)
    (finished : ∀ item, item ∈ sets.getD place [] ↔ table.Charted tokens place item) (item : Item) :
    item ∈ (sets.back?.getD []).filterMap (Item.scan? token) ↔
      table.Begun tokens sets.size item := by
  have last : sets.back?.getD [] = sets.getD place [] := by
    rw [Array.back?_eq_getElem?, Array.getD_eq_getD_getElem?, size, Nat.add_sub_cancel]
  simp only [last, List.mem_filterMap, finished, Begun, size]
  constructor
  · rintro ⟨waiting, charted, scanned⟩
    exact .inr ⟨_, token, waiting, rfl, read, charted, scanned⟩
  · rintro (⟨impossible, _⟩ | ⟨before, other, waiting, here, found, charted, scanned⟩)
    · omega
    · obtain rfl : place = before := by omega
      rw [read] at found
      cases found
      exact ⟨waiting, charted, scanned⟩

/-- The sets after one more token. -/
theorem sets_concat (before : List String) (token : String) :
    table.sets (before ++ [token]) = table.scanToken (table.sets before) token :=
  List.foldl_concat ..

/-- The sets after some of the tokens are as many as the places among them and hold the items of
these places. -/
theorem sets_begin (first others : List String) (same : tokens = first ++ others) :
    (table.sets first).size = first.length + 1 ∧
      ∀ place ≤ first.length, ∀ item,
        item ∈ (table.sets first).getD place [] ↔ table.Charted tokens place item := by
  -- Sets are added at the end, so the induction takes the tokens from the end.
  induction first using List.reverseRecOn generalizing others with
  | nil =>
    have only : table.sets [] = #[table.nextSet #[] (table.predicted 0 table.rules.start)] := rfl
    refine ⟨by rw [only]; rfl, fun place below item => ?_⟩
    obtain rfl : place = 0 := by simpa using below
    rw [only]
    exact mem_nextSet_iff finished_nil begun_first
  | append_singleton before token ih =>
    obtain ⟨size, finished⟩ := ih (token :: others) (by simp [same])
    have read : tokens[before.length]? = some token := by simp [same]
    rw [sets_concat, scanToken]
    refine ⟨by simp [size], fun place below item => ?_⟩
    simp only [List.length_append, List.length_singleton] at below
    by_cases old : place ≤ before.length
    · rw [Array.getD_eq_getD_getElem?, Array.getElem?_push_lt (by omega)]
      have kept := finished place old item
      rwa [Array.getD_eq_getD_getElem?, Array.getElem?_eq_getElem (by omega)] at kept
    · obtain rfl : place = (table.sets before).size := by omega
      rw [Array.getD_eq_getD_getElem?, Array.getElem?_push_size, Option.getD_some]
      exact mem_nextSet_iff (fun place below => finished place (by omega))
        (begun_scanned size read (finished before.length (Nat.le_refl _)))

/-- The sets of a chart are filled place after place, each until nothing in it is left to expand. -/
inductive Fills (table : Table) : List String → Array (List Item) → Prop where
  /-- The first set begins with the start. -/
  | first {set : List Item} (grows : Grows (table.expand #[])
      (table.predicted 0 table.rules.start).eraseDups
      (table.predicted 0 table.rules.start).eraseDups set) : Fills table [] #[set]
  /-- The next one begins with what is past the next token. -/
  | token {before : List String} {token : String} {sets : Array (List Item)} {set : List Item}
      (filled : Fills table before sets) (grows : Grows (table.expand sets)
        ((sets.back?.getD []).filterMap (Item.scan? token)).eraseDups
        ((sets.back?.getD []).filterMap (Item.scan? token)).eraseDups set) :
      Fills table (before ++ [token]) (sets.push set)

/-- The sets are filled. -/
theorem fills_sets (table : Table) (tokens : List String) :
    table.Fills tokens (table.sets tokens) := by
  induction tokens using List.reverseRecOn with
  | nil =>
    exact .first (grows_nextSet (@finished_nil table []) begun_first)
  | append_singleton before token ih =>
    obtain ⟨size, finished⟩ := @sets_begin table _ before [token] rfl
    rw [sets_concat, scanToken]
    exact .token ih (grows_nextSet (fun place below => finished place (by omega))
      (begun_scanned size (by simp) (finished before.length (Nat.le_refl _))))

/-- There is one set for each place. -/
theorem sets_size : (table.sets tokens).size = tokens.length + 1 :=
  (sets_begin tokens [] (List.append_nil tokens).symm).1

/-- The set of a place holds the items that the steps add there. -/
theorem mem_sets_iff {place : Nat} (inside : place ≤ tokens.length) {item : Item} :
    item ∈ (table.sets tokens).getD place [] ↔ table.Charted tokens place item :=
  (sets_begin tokens [] (List.append_nil tokens).symm).2 place inside item

/-- The nonterminal of an item is awaited where the item began, and the symbols that it has passed
derive the tokens since then. -/
theorem Charted.meaning (marks : table.nullable = table.rules.nullable) {place : Nat} {item : Item}
    (charted : table.Charted tokens place item) :
    table.rules.Awaited tokens item.head item.origin ∧
      ∃ before, before ++ item.rest ∈ table.rules.alternatives item.head ∧
        table.rules.Spans tokens before item.origin place := by
  induction charted with
  | start member =>
    obtain ⟨head, origin, listed⟩ := mem_predicted.1 member
    rw [head, origin]
    exact ⟨.start, [], listed, .nil 0⟩
  | predict _ wanted member ih =>
    obtain ⟨awaited, before, listed, spans⟩ := ih
    obtain ⟨head, origin, begun⟩ := mem_predicted.1 member
    rw [wanted] at listed
    rw [head, origin]
    exact ⟨.inside awaited listed spans, [], begun, .nil _⟩
  | pass _ wanted nullable ih =>
    obtain ⟨awaited, before, listed, spans⟩ := ih
    rw [wanted] at listed
    rw [marks] at nullable
    have derived := Rules.nullable_iff.1 nullable
    exact ⟨awaited, before ++ [_], by simpa using listed, spans.append (derived.spans_nil _)⟩
  | scan _ found scanned ih =>
    obtain ⟨awaited, before, listed, spans⟩ := ih
    obtain ⟨symbol, rest, kind, shape, matched, rfl⟩ := scan?_eq_some_iff.1 scanned
    rw [shape] at listed
    exact ⟨awaited, before ++ [symbol], by simpa using listed,
      spans.append (.terminal found matched (.nil _))⟩
  | complete _ finished _ _ passed doneIH waitingIH =>
    obtain ⟨awaited, before, listed, spans⟩ := waitingIH
    obtain ⟨_, whole, alternative, body⟩ := doneIH
    obtain ⟨rest, shape, rfl⟩ := over?_eq_some_iff.1 passed
    rw [finished, List.append_nil] at alternative
    rw [shape] at listed
    exact ⟨awaited, before ++ [_], by simpa using listed,
      spans.append (.nonterminal alternative body (.nil _))⟩

/-- An item whose next symbols derive the tokens up to a place goes on from there. -/
theorem Charted.advance (marks : table.nullable = table.rules.nullable) {symbols : List Symbol}
    {start stop : Nat} (spans : table.rules.Spans tokens symbols start stop)
    {head origin : Nat} {rest : List Symbol}
    (charted : table.Charted tokens start ⟨head, origin, symbols ++ rest⟩) :
    table.Charted tokens stop ⟨head, origin, rest⟩ := by
  induction spans generalizing head origin rest with
  | nil => exact charted
  | terminal found matched _ ih =>
    exact ih (.scan charted found (scan?_eq_some_iff.2 ⟨_, _, _, rfl, matched, rfl⟩))
  | @nonterminal index alternative others start split stop member body tail bodyIH tailIH =>
    by_cases empty : start = split
    · subst empty
      have nullable : table.nullable.getD index false = true := by
        rw [marks]
        exact Rules.nullable_iff.2 (Rules.derives_nonterminal_iff.2 ⟨_, member, body.derives_nil⟩)
      exact tailIH (.pass charted rfl nullable)
    · have begun : table.Charted tokens start ⟨index, start, alternative ++ []⟩ :=
        .predict charted rfl (mem_predicted.2 ⟨rfl, rfl, by simpa using member⟩)
      have earlier : start < split := Nat.lt_of_le_of_ne body.le empty
      exact tailIH (.complete (bodyIH begun) rfl earlier charted
        (over?_eq_some_iff.2 ⟨_, rfl, rfl⟩))

/-- The alternatives of an awaited nonterminal begin where it is awaited. -/
theorem charted_of_awaited (marks : table.nullable = table.rules.nullable) {head origin : Nat}
    (awaited : table.rules.Awaited tokens head origin) {alternative : List Symbol}
    (member : alternative ∈ table.rules.alternatives head) :
    table.Charted tokens origin ⟨head, origin, alternative⟩ := by
  induction awaited generalizing alternative with
  | start => exact .start (mem_predicted.2 ⟨rfl, rfl, member⟩)
  | inside _ listed read ih =>
    exact .predict ((ih listed).advance marks read) rfl (mem_predicted.2 ⟨rfl, rfl, member⟩)

/-- An item stands at a place exactly if its nonterminal is awaited where the item began and the
symbols that it has passed derive the tokens between the two places. -/
theorem charted_iff (marks : table.nullable = table.rules.nullable) {place : Nat} {item : Item} :
    table.Charted tokens place item ↔
      table.rules.Awaited tokens item.head item.origin ∧
        ∃ before, before ++ item.rest ∈ table.rules.alternatives item.head ∧
          table.rules.Spans tokens before item.origin place := by
  constructor
  · exact Charted.meaning marks
  · rintro ⟨awaited, before, listed, spans⟩
    exact (charted_of_awaited marks awaited listed).advance marks spans

end Table

end CommandGrammar
