import Mathlib
import CommandGrammar.Proofs.Reading.Success

/-!
# What is read has a derivation

Whatever the reader reads, it has followed a derivation that is clear of the open spans. A
clear derivation in its turn avoids the open spans, so a nonterminal that is no star is read
exactly where it has a derivation without any of them. The items of a star are derived one
after the other and come out of derivations of the star, which nest to the left, in their
order.
-/

namespace CommandGrammar

namespace Rules

/-- One item of a star with a derivation in which no nonterminal but stars is on an open span. -/
def FreeItem (rules : Rules) (tokens : List String) (opened : List Span) (item : Symbol)
    (start stop : Nat) : Prop :=
  start < stop ∧ ∃ height, rules.Avoids tokens opened height [item] start stop

variable {rules : Rules} {tokens : List String} {opened more : List Span} {start split stop : Nat}

/-- A derivation that avoids spans avoids some of them. -/
theorem Avoids.fewer {height : Nat} {symbols : List Symbol}
    (avoids : rules.Avoids tokens more height symbols start stop) (subset : opened ⊆ more) :
    rules.Avoids tokens opened height symbols start stop := by
  induction avoids with
  | nil height place => exact .nil height place
  | terminal found matched _ ih => exact .terminal found matched ih
  | nonterminal free member _ _ bodyIH tailIH =>
    exact .nonterminal (free.imp_right fun notOpen listed => notOpen (subset listed)) member
      bodyIH tailIH

/-- Derivations of adjacent spans that avoid the open ones make one of both. -/
theorem Avoids.append {low high : Nat} {first others : List Symbol}
    (head : rules.Avoids tokens opened low first start split)
    (tail : rules.Avoids tokens opened high others split stop) :
    rules.Avoids tokens opened (max low high) (first ++ others) start stop := by
  induction head with
  | nil => exact tail.mono (Nat.le_max_right _ _)
  | terminal found matched _ ih => exact .terminal found matched (ih tail)
  | @nonterminal low index alternative rest start middle split free member body _ _ ih =>
    obtain ⟨height, bound⟩ : ∃ height, max (low + 1) high = height + 1 :=
      ⟨max low (high - 1), by omega⟩
    have outer := ih tail
    rw [bound] at outer ⊢
    exact .nonterminal free member (body.mono (by omega)) outer

/-- The derivations of a star and what follows it are chains of items and what follows. -/
theorem Avoids.star_chain (shaped : rules.StarShaped) {height index : Nat} {item : Symbol}
    (star : rules.label index = .star item) {rest : List Symbol}
    (avoids : rules.Avoids tokens opened height (.nonterminal index :: rest) start stop) :
    ∃ split, Relation.ReflTransGen (rules.FreeItem tokens opened item) start split ∧
      ∃ lower, rules.Avoids tokens opened lower rest split stop := by
  generalize same : Symbol.nonterminal index :: rest = symbols at avoids
  induction avoids generalizing rest with
  | nil => contradiction
  | terminal _ matched =>
    cases same
    cases matched
  | @nonterminal height _ alternative _ start split stop free member body tail bodyIH _ =>
    cases same
    rw [shaped.alternatives star] at member
    rcases List.mem_cons.1 member with rfl | none_left
    · obtain ⟨middle, chain, lower, last⟩ := bodyIH rfl
      refine ⟨split, ?_, height + 1, tail⟩
      by_cases empty : middle = split
      · exact empty ▸ chain
      · have below : middle < split := Nat.lt_of_le_of_ne last.spans.le empty
        exact chain.tail ⟨below, lower, last⟩
    · obtain rfl := List.mem_singleton.1 none_left
      cases body
      exact ⟨start, .refl, height + 1, tail⟩

/-- A chain of items is a derivation of the star. -/
theorem avoids_star (shaped : rules.StarShaped) {index : Nat} {item : Symbol}
    (star : rules.label index = .star item)
    (chain : Relation.ReflTransGen (rules.FreeItem tokens opened item) start stop) :
    ∃ height, rules.Avoids tokens opened height [.nonterminal index] start stop := by
  induction chain with
  | refl =>
    have member : [] ∈ rules.alternatives index := by simp [shaped.alternatives star]
    exact ⟨1, .nonterminal (.inl ⟨item, star⟩) member (.nil 0 start) (.nil 1 start)⟩
  | @tail _ last _ step ih =>
    obtain ⟨low, before⟩ := ih
    obtain ⟨_, high, final⟩ := step
    have member : [.nonterminal index, item] ∈ rules.alternatives index := by
      simp [shaped.alternatives star]
    exact ⟨max low high + 1, .nonterminal (.inl ⟨item, star⟩) member (before.append final)
      (.nil _ last)⟩

/-- A clear derivation avoids the open spans. -/
theorem Clear.avoids (shaped : rules.StarShaped) {symbols : List Symbol}
    (clear : rules.Clear tokens opened symbols start stop) :
    ∃ height, rules.Avoids tokens opened height symbols start stop := by
  induction clear with
  | nil _ place => exact ⟨0, .nil 0 place⟩
  | terminal found matched _ ih =>
    obtain ⟨height, tail⟩ := ih
    exact ⟨height, .terminal found matched tail⟩
  | nonterminal _ free member _ _ bodyIH tailIH =>
    obtain ⟨low, inner⟩ := bodyIH
    obtain ⟨high, outer⟩ := tailIH
    have body := inner.fewer (List.subset_cons_self _ _)
    exact ⟨max low high + 1, .nonterminal (.inr free) member (body.mono (by omega))
      (outer.mono (by omega))⟩
  | @starEnd _ index item _ start _ star _ ih =>
    obtain ⟨height, tail⟩ := ih
    obtain ⟨low, empty⟩ := avoids_star shaped star
      (@Relation.ReflTransGen.refl _ (rules.FreeItem tokens _ item) start)
    exact ⟨_, empty.append tail⟩
  | starItem star below _ _ firstIH tailIH =>
    -- the first item goes in front of the chain of the others
    obtain ⟨height, others⟩ := tailIH
    obtain ⟨middle, chain, lower, after⟩ := others.star_chain shaped star
    obtain ⟨_, whole⟩ := avoids_star shaped star (chain.head ⟨below, firstIH⟩)
    exact ⟨_, whole.append after⟩

/-- An item is free exactly if it is not empty and has a clear derivation. -/
theorem freeItem_iff (shaped : rules.StarShaped) {item : Symbol} :
    rules.FreeItem tokens opened item start stop ↔
      start < stop ∧ rules.Clear tokens opened [item] start stop := by
  refine and_congr_right fun _ => ⟨?_, Clear.avoids shaped⟩
  rintro ⟨height, avoids⟩
  exact avoids.clear shaped

/-- A free item is one. -/
theorem FreeItem.itemSpan {item : Symbol} (free : rules.FreeItem tokens opened item start stop) :
    rules.ItemSpan tokens item start stop := by
  obtain ⟨below, _, avoids⟩ := free
  exact ⟨below, avoids.spans⟩

end Rules

namespace Reading

variable {table : Table} {tokens : List String} {opened : List Span} {read : SpanReader}
  {start stop : Nat} {trees : List Tree}

/-- What a reader reads has a clear derivation. -/
def Follows (table : Table) (tokens : List String) (opened : List Span) (read : SpanReader) :
    Prop :=
  ∀ index start stop trees, read index start stop = some trees →
    table.rules.Clear tokens opened [.nonterminal index] start stop

/-- What a reader reads for nonterminals that are no stars has a clear derivation. -/
def FollowsPlain (table : Table) (tokens : List String) (opened : List Span) (read : SpanReader) :
    Prop :=
  ∀ index start stop trees, (∀ item, table.rules.label index ≠ .star item) →
    read index start stop = some trees →
      table.rules.Clear tokens opened [.nonterminal index] start stop

/-- A terminal with a leaf has a clear derivation. -/
theorem clear_of_leaf? {symbol : Symbol} {tree : Tree}
    (found : (table.reading tokens).leaf? symbol start = some tree) :
    table.rules.Clear tokens opened [symbol] start (start + 1) := by
  obtain ⟨token, kind, stands, matched, _⟩ := leaf?_eq_some_iff.1 found
  exact .terminal stands matched (.nil opened _)

/-- Symbols that are read have a clear derivation. -/
theorem clear_of_readSymbols (follows : Follows table tokens opened read) {symbols : List Symbol}
    (found : (table.reading tokens).readSymbols read symbols start stop = some trees) :
    table.rules.Clear tokens opened symbols start stop := by
  induction symbols generalizing start trees with
  | nil =>
    rw [readSymbols] at found
    split at found
    · next same => exact same ▸ .nil opened start
    · cases found
  | cons symbol rest ih =>
    have atTerminal (terminal : ∀ index, symbol ≠ .nonterminal index) :
        table.rules.Clear tokens opened (symbol :: rest) start stop := by
      rw [readSymbols_terminal _ _ terminal] at found
      split at found
      · obtain ⟨tree, leaf, later⟩ := Option.bind_eq_some_iff.1 found
        obtain ⟨others, tail, _⟩ := Option.map_eq_some_iff.1 later
        exact (clear_of_leaf? leaf).append (ih tail)
      · cases found
    cases symbol with
    | nonterminal index =>
      rw [readSymbols] at found
      obtain ⟨split, _, produced⟩ := List.exists_of_findSome?_eq_some found
      split at produced
      · split at produced
        · cases produced
        · next first head =>
          obtain ⟨others, tail, _⟩ := Option.map_eq_some_iff.1 produced
          exact (follows index start split first head).append (ih tail)
      · cases produced
    | literal text => exact atTerminal (by simp)
    | value => exact atTerminal (by simp)

/-- An item that is read has a clear derivation. -/
theorem clear_of_readItem (follows : FollowsPlain table tokens opened read) {item : Symbol}
    (plain : ∀ index, item = .nonterminal index → ∀ inner, table.rules.label index ≠ .star inner)
    (found : (table.reading tokens).readItem read item start stop = some trees) :
    table.rules.Clear tokens opened [item] start stop := by
  have atTerminal (found : (if start + 1 = stop then
      ((table.reading tokens).leaf? item start).map ([·]) else none) = some trees) :
      table.rules.Clear tokens opened [item] start stop := by
    split at found
    · next next =>
      obtain ⟨tree, leaf, _⟩ := Option.map_eq_some_iff.1 found
      exact next ▸ clear_of_leaf? leaf
    · cases found
  cases item with
  | nonterminal index => exact follows index start stop trees (plain index rfl) found
  | literal text => exact atTerminal found
  | value => exact atTerminal found

/-- Items of a star that are read are a clear derivation of it. -/
theorem clear_of_readItems (follows : FollowsPlain table tokens opened read) {index : Nat}
    {item : Symbol} (star : table.rules.label index = .star item)
    (plain : ∀ other, item = .nonterminal other → ∀ inner, table.rules.label other ≠ .star inner)
    {starts : List Nat} {fuel : Nat}
    (found : (table.reading tokens).readItems read item starts stop fuel start = some trees) :
    table.rules.Clear tokens opened [.nonterminal index] start stop := by
  induction fuel generalizing start trees with
  | zero =>
    rw [readItems] at found
    split at found
    · next same => exact same ▸ .starEnd star (.nil opened start)
    · cases found
  | succ fuel ih =>
    rw [readItems] at found
    split at found
    · next same => exact same ▸ .starEnd star (.nil opened start)
    · simp only at found
      split at found
      · cases found
      · next split first step =>
        obtain ⟨chosen, listed, produced⟩ := List.exists_of_findSome?_eq_some step
        split at produced
        · obtain ⟨head, taken, same⟩ := Option.map_eq_some_iff.1 produced
          cases same
          obtain ⟨others, tail, _⟩ := Option.map_eq_some_iff.1 found
          have below : start < split := by simpa using (List.mem_filter.1 listed).2
          exact .starItem star below (clear_of_readItem follows plain taken) (ih tail)
        · cases produced

/-- With the items of stars read in a loop, what is read has a clear derivation. -/
theorem follows_readEither (shaped : table.rules.StarShaped)
    (follows : FollowsPlain table tokens opened read) :
    Follows table tokens opened ((table.reading tokens).readEither read) := by
  intro index start stop trees found
  unfold readEither at found
  rw [Table.rules_reading] at found
  split at found
  · next item star =>
    rw [readStar] at found
    split at found
    · have plain : ∀ other, item = .nonterminal other →
          ∀ inner, table.rules.label other ≠ .star inner :=
        fun other same _ => shaped.item (same ▸ star)
      exact clear_of_readItems follows star plain found
    · cases found
  · next id named => exact follows index start stop trees (by simp [named]) found
  · next nested => exact follows index start stop trees (by simp [nested]) found

/-- What is read by alternatives has a clear derivation. -/
theorem follows_readAlternatives (shaped : table.rules.StarShaped) (fuel : Nat) :
    FollowsPlain table tokens opened ((table.reading tokens).readAlternatives fuel opened) := by
  induction fuel generalizing opened with
  | zero =>
    intro index start stop trees _ found
    cases found
  | succ fuel ih =>
    intro index start stop trees plain found
    rw [readAlternatives] at found
    split at found
    · cases found
    · next free =>
      obtain ⟨inner, chosen, _⟩ := Option.map_eq_some_iff.1 found
      obtain ⟨symbols, member, produced⟩ := List.exists_of_findSome?_eq_some chosen
      split at produced
      · have body := clear_of_readSymbols (follows_readEither shaped ih) produced
        exact .nonterminal plain (by simpa using free) member body (.nil opened stop)
      · cases produced

end Reading

end CommandGrammar
