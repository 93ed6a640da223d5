import Mathlib
import CommandGrammar.Proofs.Policy.Repetitions
import CommandGrammar.Proofs.Reading.Called
import CommandGrammar.Proofs.Reading.Found

/-!
# Stars are read without turning back

The table of places from which items lead to the end of a star knows nothing of the open
spans, and the loop over the items never takes a choice back. All the same it gets stuck
nowhere: the open spans lie around the star, so none of them can occur in an item that
begins after its start. Only a first item can be refused, and if the star has items that
avoid the open spans, the first of these can be read. Wherever the items taken so far lead,
the next one therefore is the longest that there is.
-/

namespace CommandGrammar

namespace Rules

/-- The longest item that avoids the open spans and from which items lead to a place. -/
def LongestItem (rules : Rules) (tokens : List String) (opened : List Span) (item : Symbol)
    (stop place split : Nat) : Prop :=
  IsGreatest {last | rules.FreeItem tokens opened item place last ∧
    Relation.ReflTransGen (rules.ItemSpan tokens item) last stop} split

variable {rules : Rules} {tokens : List String} {opened : List Span} {item : Symbol}
  {start stop place split : Nat}

/-- If items lead on after some item that avoids the open spans, there is a longest one. -/
theorem exists_longestItem (free : rules.FreeItem tokens opened item place split)
    (rest : Relation.ReflTransGen (rules.ItemSpan tokens item) split stop) :
    ∃ longest, rules.LongestItem tokens opened item stop place longest := by
  let ends := {last | rules.FreeItem tokens opened item place last ∧
    Relation.ReflTransGen (rules.ItemSpan tokens item) last stop}
  have bounded : BddAbove ends := ⟨stop, fun last member => chain_le member.2⟩
  have inhabited : ends.Nonempty := ⟨split, free, rest⟩
  exact ⟨sSup ends, Nat.sSup_mem inhabited bounded, fun last member => le_csSup bounded member⟩

/-- The longest item is an item. -/
theorem LongestItem.itemSpan
    (longest : rules.LongestItem tokens opened item stop place split) :
    rules.ItemSpan tokens item place split :=
  longest.1.1.itemSpan

/-- An item that begins after the start of what the open spans lie around avoids them. -/
theorem ItemSpan.free {size : Nat} (around : Reading.Around size opened start stop)
    (spans : rules.ItemSpan tokens item place split) (after : start < place) :
    rules.FreeItem tokens opened item place split := by
  have outside : ∀ span ∈ opened, ¬ (place ≤ span.2.1 ∧ span.2.2 ≤ split) := by
    intro span member inside
    have outer := (around.outside span member).1
    omega
  exact ⟨spans.1, spans.2.avoids outside⟩

/-- Wherever items lead, one that avoids the open spans leads on, if those of a star do that avoid
them. -/
theorem exists_freeItem {size : Nat} (around : Reading.Around size opened start stop)
    (items : Relation.ReflTransGen (rules.FreeItem tokens opened item) start stop)
    (before : Relation.ReflTransGen (rules.ItemSpan tokens item) start place)
    (rest : Relation.ReflTransGen (rules.ItemSpan tokens item) place stop)
    (unfinished : place ≠ stop) :
    ∃ split, rules.FreeItem tokens opened item place split ∧
      Relation.ReflTransGen (rules.ItemSpan tokens item) split stop := by
  by_cases first : place = start
  · obtain ⟨split, free, more⟩ :=
      (Relation.ReflTransGen.cases_head items).resolve_left (first ▸ unfinished)
    exact ⟨split, first ▸ free,
      Relation.ReflTransGen.mono (fun _ _ => FreeItem.itemSpan) _ _ more⟩
  · have after : start < place := Nat.lt_of_le_of_ne (chain_le before) (Ne.symm first)
    obtain ⟨split, step, more⟩ :=
      (Relation.ReflTransGen.cases_head rest).resolve_left unfinished
    exact ⟨split, step.free around after, more⟩

end Rules

namespace Reading

/-- Items are read up to a place, each the longest one there is, and leave their trees one after
the other. -/
inductive ReadsLongest (table : Table) (tokens : List String) (opened : List Span)
    (read : SpanReader) (item : Symbol) (stop : Nat) : Nat → List Tree → Prop where
  /-- At the place nothing is left to read. -/
  | done : ReadsLongest table tokens opened read item stop stop []
  /-- The longest item is read, and the others from its end on. -/
  | item {place split : Nat} {trees others : List Tree}
      (longest : table.rules.LongestItem tokens opened item stop place split)
      (taken : (table.reading tokens).readItem read item place split = some trees)
      (rest : ReadsLongest table tokens opened read item stop split others) :
      ReadsLongest table tokens opened read item stop place (trees ++ others)

/-- Reading the longest items goes along them. -/
theorem ReadsLongest.chain {table : Table} {tokens : List String} {opened : List Span}
    {read : SpanReader} {item : Symbol} {place stop : Nat} {trees : List Tree}
    (reads : ReadsLongest table tokens opened read item stop place trees) :
    Relation.ReflTransGen (table.rules.LongestItem tokens opened item stop) place stop := by
  induction reads with
  | done => exact .refl
  | item longest _ _ ih => exact .head longest ih

section Items

variable {grammar : Grammar} {tokens : List String} {opened : List Span} {item : Symbol}
  {fuel start stop place split : Nat}

/-- Where it is waited for an item can be read exactly if it avoids the open spans. -/
theorem readItem_isSome_iff (closed : grammar.isClosed = true)
    (provided : Provided (Rules.ofGrammar grammar).size opened fuel start stop)
    (plain : ∀ index, item = .nonterminal index →
      ∀ inner, (Rules.ofGrammar grammar).label index ≠ .star inner)
    (waits : (Rules.ofGrammar grammar).Waits tokens [item] place)
    (after : start ≤ place) (below : place < split) (before : split ≤ stop) :
    ((ofGrammar grammar tokens).readItem ((ofGrammar grammar tokens).readAlternatives fuel opened)
        item place split).isSome = true ↔
      (Rules.ofGrammar grammar).FreeItem tokens opened item place split := by
  have marks := Table.marks_ofGrammar grammar
  have shaped := Grammar.starShaped closed
  rw [Rules.freeItem_iff shaped, and_iff_right below]
  constructor
  · intro readable
    obtain ⟨trees, taken⟩ := Option.isSome_iff_exists.1 readable
    exact clear_of_readItem (follows_readAlternatives shaped fuel) plain taken
  · intro clear
    have reads := @readAlternatives_isSome _ _ _ (Table.ofGrammar grammar) tokens marks shaped _
      provided.around provided.enough
    exact readItem_isSome plain reads after before waits shaped clear

/-- Of the ends of an item the first that can be taken is that of the longest. -/
theorem findSome?_longest (closed : grammar.isClosed = true)
    (provided : Provided (Rules.ofGrammar grammar).size opened fuel start stop)
    (plain : ∀ index, item = .nonterminal index →
      ∀ inner, (Rules.ofGrammar grammar).label index ≠ .star inner)
    (waits : (Rules.ofGrammar grammar).Waits tokens [item] place)
    (after : start ≤ place) {starts : List Nat}
    (begun : ∀ later, (Rules.ofGrammar grammar).ItemSpan tokens item place later →
      (later ∈ starts ↔
        Relation.ReflTransGen ((Rules.ofGrammar grammar).ItemSpan tokens item) later stop))
    (longest : (Rules.ofGrammar grammar).LongestItem tokens opened item stop place split)
    {trees : List Tree}
    (taken : (ofGrammar grammar tokens).readItem
      ((ofGrammar grammar tokens).readAlternatives fuel opened) item place split = some trees) :
    (((ofGrammar grammar tokens).itemEnds item place stop).findSome? fun split =>
      if starts.contains split then
        ((ofGrammar grammar tokens).readItem
          ((ofGrammar grammar tokens).readAlternatives fuel opened) item place split).map
            fun trees => (split, trees)
      else none) = some (split, trees) := by
  have marks := Table.marks_ofGrammar grammar
  have spans := longest.itemSpan
  have rest := longest.1.2
  refine findSome?_of_falling (symbolEnds_falling.filter _)
    (mem_itemEnds marks waits spans (Rules.chain_le rest)) ?_ ?_
  · rw [if_pos (List.contains_iff_mem.2 ((begun split spans).2 rest)), taken]
    rfl
  · intro later member above
    obtain ⟨laterSpans, bound⟩ := itemSpan_of_mem_itemEnds marks member
    by_cases listed : starts.contains later = true
    · -- items lead on from the later end, so an item up to it would be a longer one
      have onward := (begun later laterSpans).1 (List.contains_iff_mem.1 listed)
      have refused : ¬ (Rules.ofGrammar grammar).FreeItem tokens opened item place later :=
        fun free => Nat.not_lt.2 (longest.2 ⟨free, onward⟩) above
      have unread := mt (readItem_isSome_iff closed provided plain waits after laterSpans.1 bound).1
        refused
      rw [if_pos listed, Option.not_isSome_iff_eq_none.1 unread]
      rfl
    · exact if_neg listed

/-- From every place to which the items of a star lead, the longest items are read to its end. -/
theorem readItems_longest (closed : grammar.isClosed = true)
    (provided : Provided (Rules.ofGrammar grammar).size opened fuel start stop) {index : Nat}
    (star : (Rules.ofGrammar grammar).label index = .star item)
    (awaited : (Rules.ofGrammar grammar).Awaited tokens index start)
    (items : Relation.ReflTransGen ((Rules.ofGrammar grammar).FreeItem tokens opened item)
      start stop) {count : Nat}
    (before : Relation.ReflTransGen ((Rules.ofGrammar grammar).ItemSpan tokens item) start place)
    (rest : Relation.ReflTransGen ((Rules.ofGrammar grammar).ItemSpan tokens item) place stop)
    (enough : stop - place ≤ count) :
    ∃ trees, (ofGrammar grammar tokens).readItems
        ((ofGrammar grammar tokens).readAlternatives fuel opened) item
        ((ofGrammar grammar tokens).itemStarts item stop (stop - start)) stop count place =
          some trees ∧
      ReadsLongest (Table.ofGrammar grammar) tokens opened
        ((ofGrammar grammar tokens).readAlternatives fuel opened) item stop place trees := by
  have marks := Table.marks_ofGrammar grammar
  have shaped := Grammar.starShaped closed
  have plain : ∀ other, item = .nonterminal other →
      ∀ inner, (Rules.ofGrammar grammar).label other ≠ .star inner :=
    fun other same _ => shaped.item (same ▸ star)
  induction count generalizing place with
  | zero =>
    obtain rfl : place = stop := Nat.le_antisymm (Rules.chain_le rest) (by omega)
    exact ⟨[], by simp [readItems], .done⟩
  | succ count ih =>
    by_cases done : place = stop
    · subst done
      exact ⟨[], by simp [readItems], .done⟩
    · obtain ⟨other, free, more⟩ := Rules.exists_freeItem provided.around items before rest done
      obtain ⟨split, longest⟩ := Rules.exists_longestItem free more
      have after := Rules.chain_le before
      have waits := waits_item shaped star awaited before
      have spans := longest.itemSpan
      have below := spans.1
      have onward := longest.1.2
      obtain ⟨front, taken⟩ := Option.isSome_iff_exists.1
        ((readItem_isSome_iff closed provided plain waits after below
          (Rules.chain_le onward)).2 longest.1.1)
      have step := findSome?_longest closed provided plain waits after
        (fun later first => mem_itemStarts_iff marks shaped star awaited (before.tail first))
        longest taken
      obtain ⟨back, read, reads⟩ := ih (before.tail spans) onward (by omega)
      refine ⟨front ++ back, ?_, .item longest taken reads⟩
      rw [readItems, if_neg done]
      simp only [step, read, Option.map_some]

end Items

end Reading

namespace Grammar

open Reading

/-- A star that is read anywhere while all tokens are read, and that has items which avoid the open
spans, is read by the longest items: taking them leads to its end from wherever they lead, exactly
the items that avoid the open spans can be read, and the table of places is exact wherever items
lead. -/
theorem stars_never_stuck {grammar : Grammar} (closed : grammar.isClosed = true)
    {tokens : List String} {fuel index start stop : Nat} {opened : List Span} {item : Symbol}
    (call : (ofGrammar grammar tokens).Called fuel opened (.read index start stop))
    (star : (Rules.ofGrammar grammar).label index = .star item)
    (items : Relation.ReflTransGen ((Rules.ofGrammar grammar).FreeItem tokens opened item)
      start stop) :
    (∃ trees, (ofGrammar grammar tokens).readStar
          ((ofGrammar grammar tokens).readAlternatives fuel opened) item start stop = some trees ∧
        ReadsLongest (Table.ofGrammar grammar) tokens opened
          ((ofGrammar grammar tokens).readAlternatives fuel opened) item stop start trees) ∧
      (∀ place, Relation.ReflTransGen
          ((Rules.ofGrammar grammar).LongestItem tokens opened item stop) start place →
        Relation.ReflTransGen
          ((Rules.ofGrammar grammar).LongestItem tokens opened item stop) place stop) ∧
      (∀ place split, Relation.ReflTransGen ((Rules.ofGrammar grammar).ItemSpan tokens item)
          start place → place < split → split ≤ stop →
        (((ofGrammar grammar tokens).readItem
            ((ofGrammar grammar tokens).readAlternatives fuel opened) item place split).isSome =
              true ↔
          (Rules.ofGrammar grammar).FreeItem tokens opened item place split)) ∧
      ∀ place, Relation.ReflTransGen ((Rules.ofGrammar grammar).ItemSpan tokens item) start place →
        (place ∈ (ofGrammar grammar tokens).itemStarts item stop (stop - start) ↔
          Relation.ReflTransGen ((Rules.ofGrammar grammar).ItemSpan tokens item) place stop) := by
  have marks := Table.marks_ofGrammar grammar
  have shaped := Grammar.starShaped closed
  have plain : ∀ other, item = .nonterminal other →
      ∀ inner, (Rules.ofGrammar grammar).label other ≠ .star inner :=
    fun other same _ => shaped.item (same ▸ star)
  obtain ⟨awaited, provided⟩ : (Rules.ofGrammar grammar).Awaited tokens index start ∧
    Provided (Rules.ofGrammar grammar).size opened fuel start stop := call.provided marks shaped
  have whole : Relation.ReflTransGen ((Rules.ofGrammar grammar).ItemSpan tokens item) start stop :=
    Relation.ReflTransGen.mono (fun _ _ => Rules.FreeItem.itemSpan) _ _ items
  refine ⟨?_, ?_, ?_, ?_⟩
  · have begun := (mem_itemStarts_iff marks shaped star awaited .refl).2 whole
    obtain ⟨trees, read, reads⟩ :=
      readItems_longest closed provided star awaited items .refl whole (Nat.le_refl _)
    refine ⟨trees, ?_, reads⟩
    rw [readStar]
    simp only [List.contains_iff_mem.2 begun, if_true, read]
  · intro place taken
    have before : Relation.ReflTransGen ((Rules.ofGrammar grammar).ItemSpan tokens item)
        start place := Relation.ReflTransGen.mono (fun _ _ => Rules.LongestItem.itemSpan) _ _ taken
    have rest : Relation.ReflTransGen ((Rules.ofGrammar grammar).ItemSpan tokens item)
        place stop := by
      rcases Relation.ReflTransGen.cases_tail taken with rfl | ⟨_, _, last⟩
      · exact whole
      · exact last.1.2
    obtain ⟨_, _, reads⟩ :=
      readItems_longest closed provided star awaited items before rest (Nat.le_refl _)
    exact reads.chain
  · intro place split before below bound
    exact readItem_isSome_iff closed provided plain (waits_item shaped star awaited before)
      (Rules.chain_le before) below bound
  · intro place before
    exact mem_itemStarts_iff marks shaped star awaited before

/-- A node that is any number of words or of itself. -/
def looped : Grammar where
  productions := [⟨0, "loop", .repetition (.alt [.rule 0, .literal "a"]) 0 none⟩]
  start := 0

/-- On two words the star of the node is read while the node is open on both. -/
theorem called_looped :
    (ofGrammar looped ["a", "a"]).Called 13 [(1, 0, 2), (0, 0, 2)] (.read 3 0 2) := by
  have outer : (Rules.ofGrammar looped).label 0 = .named 0 := rfl
  have inner : (Rules.ofGrammar looped).label 1 = .auxiliary := rfl
  have all : (ofGrammar looped ["a", "a"]).Called 15 [] (.read 0 0 2) := .whole
  have node : (ofGrammar looped ["a", "a"]).Called 14 [(0, 0, 2)]
      (.follow [.nonterminal 1] 0 2) :=
    .alternative all (by simp [Table.rules_reading, Table.rules_ofGrammar, outer]) (by decide)
      (by decide) (by decide +kernel)
  have body : (ofGrammar looped ["a", "a"]).Called 14 [(0, 0, 2)] (.read 1 0 2) :=
    .nonterminal node (by decide +kernel) (by decide +kernel)
  have repetition : (ofGrammar looped ["a", "a"]).Called 13 [(1, 0, 2), (0, 0, 2)]
      (.follow [.nonterminal 3] 0 2) :=
    .alternative body (by simp [Table.rules_reading, Table.rules_ofGrammar, inner]) (by decide)
      (by decide) (by decide +kernel)
  exact .nonterminal repetition (by decide +kernel) (by decide +kernel)

/-- The first item of that star may not be the node on both words, since that is open, so each item
is one word. -/
theorem looped_star_read :
    (ofGrammar looped ["a", "a"]).Called 13 [(1, 0, 2), (0, 0, 2)] (.read 3 0 2) ∧
      2 ∈ (ofGrammar looped ["a", "a"]).itemEnds (.nonterminal 2) 0 2 ∧
      ¬ (Rules.ofGrammar looped).FreeItem ["a", "a"] [(1, 0, 2), (0, 0, 2)] (.nonterminal 2) 0 2 ∧
      ∃ trees, (ofGrammar looped ["a", "a"]).readStar
          ((ofGrammar looped ["a", "a"]).readAlternatives 13 [(1, 0, 2), (0, 0, 2)])
          (.nonterminal 2) 0 2 = some trees ∧
        ReadsLongest (Table.ofGrammar looped) ["a", "a"] [(1, 0, 2), (0, 0, 2)]
          ((ofGrammar looped ["a", "a"]).readAlternatives 13 [(1, 0, 2), (0, 0, 2)])
          (.nonterminal 2) 2 0 trees := by
  have word : ∀ place, place < 2 → (Rules.ofGrammar looped).FreeItem ["a", "a"]
      [(1, 0, 2), (0, 0, 2)] (.nonterminal 2) place (place + 1) := by
    intro place below
    have found : ["a", "a"][place]? = some "a" := by
      rcases Nat.le_one_iff_eq_zero_or_eq_one.1 (Nat.le_of_lt_succ below) with rfl | rfl <;> rfl
    have leaf : (Rules.ofGrammar looped).Avoids ["a", "a"] [(1, 0, 2), (0, 0, 2)] 0
        [.literal "a"] place (place + 1) := .terminal found rfl (.nil 0 _)
    exact ⟨Nat.lt_succ_self place, 1, .nonterminal (.inr (by simp)) (by decide) leaf (.nil 1 _)⟩
  have items := (Relation.ReflTransGen.single (word 0 (by decide))).tail (word 1 (by decide))
  obtain ⟨read, _, readable, _⟩ :=
    stars_never_stuck (by decide) called_looped (by decide) items
  have refused := mt (readable 0 2 .refl (by decide) (by decide)).2 (by decide +kernel)
  exact ⟨called_looped, by decide +kernel, refused, read⟩

end Grammar

end CommandGrammar
