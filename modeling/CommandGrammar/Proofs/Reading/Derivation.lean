import Mathlib
import CommandGrammar.Tree.Derivation
import CommandGrammar.Proofs.Chart.Ends
import CommandGrammar.Proofs.Flatten.Language

/-!
# What is read is a derivation

Whatever the reader returns for symbols between two places matches them: every branch has
the children that its production allows, nested expressions are spliced in where they
stand, and the leaves are the tokens between the places in their order. Nothing of the
chart is used for this but that splits are places, so it holds on every chart.
-/

namespace CommandGrammar

/-- Trees as atoms: a terminal stands for a leaf of its kind, and a rule for a branch of it. -/
def treeAtoms : Atoms Tree where
  literal text trees := ∃ index, trees = [.leaf ⟨.literal, text, index⟩]
  value trees := ∃ text index, trees = [.leaf ⟨.value, text, index⟩]
  rule id trees := ∃ children, trees = [.branch id children]

/-- Trees match the expressions that denote them. -/
theorem Expr.matches_of_denotes {expr : Expr} {trees : List Tree}
    (denoted : expr.Denotes treeAtoms trees) : expr.Matches trees := by
  induction denoted with
  | @literal text _ stands =>
    obtain ⟨index, rfl⟩ := stands
    exact .literal text index
  | value stands =>
    obtain ⟨text, index, rfl⟩ := stands
    exact .value text index
  | @rule id _ stands =>
    obtain ⟨children, rfl⟩ := stands
    exact .rule id children
  | seqNil => exact .seqNil
  | seqCons _ _ headIH tailIH => exact .seqCons headIH tailIH
  | alt member _ ih => exact .alt member ih
  | absent inner => exact .absent inner
  | present _ ih => exact .present ih
  | repetition parts least most _ ih => exact .repetition parts least most ih

/-- The tokens between two places, each with its place. -/
def tokensAt (tokens : List String) (start stop : Nat) : List (Option String × Nat) :=
  (List.range' start (stop - start)).map fun place => (tokens[place]?, place)

/-- The tokens up to a place and those after it. -/
theorem tokensAt_append {tokens : List String} {start split stop : Nat} (first : start ≤ split)
    (second : split ≤ stop) :
    tokensAt tokens start split ++ tokensAt tokens split stop = tokensAt tokens start stop := by
  unfold tokensAt
  rw [← List.map_append]
  congr 1
  have next : split = start + (split - start) := by omega
  have total : stop - start = (split - start) + (stop - split) := by omega
  rw [total, ← List.range'_append_1, ← next]

/-- All tokens with their places. -/
theorem tokensAt_all (tokens : List String) :
    tokensAt tokens 0 tokens.length = tokens.zipIdx.map fun mark => (some mark.1, mark.2) := by
  apply List.ext_getElem?
  intro place
  rw [tokensAt, Nat.sub_zero, List.getElem?_map, List.getElem?_map, List.getElem?_zipIdx]
  by_cases inside : place < tokens.length
  · rw [List.getElem?_range' (by simpa using inside)]
    simp [inside]
  · rw [List.getElem?_eq_none (by simpa using inside),
      List.getElem?_eq_none (by simpa using inside)]
    rfl

/-- Trees for symbols between two places that form a derivation. -/
structure Sound (grammar : Grammar) (tokens : List String) (symbols : List Symbol)
    (start stop : Nat) (trees : List Tree) : Prop where
  /-- The trees are denoted by the symbols. -/
  denoted : (Rules.ofGrammar grammar).Denotes grammar.number treeAtoms symbols trees
  /-- Every branch is matched with the production of its rule. -/
  admitted : ∀ tree ∈ trees, grammar.Admits tree
  /-- The places are in order. -/
  ordered : start ≤ stop
  /-- The leaves are the tokens between the places. -/
  leaves : (leavesOf trees).map (fun leaf => (some leaf.text, leaf.index)) =
    tokensAt tokens start stop

variable {grammar : Grammar} {tokens : List String} {start stop : Nat}

/-- A symbol that stands for a node only as the nonterminal of a node of the grammar. -/
abbrev Grammar.IsProper (grammar : Grammar) (symbol : Symbol) : Prop :=
  (Rules.ofGrammar grammar).IsProper grammar.number grammar.ids symbol

/-- No symbol, no tree. -/
theorem Sound.nil (place : Nat) : Sound grammar tokens [] place place [] :=
  ⟨.nil, by simp, Nat.le_refl _, by simp [leavesOf, tokensAt]⟩

/-- Trees for symbols that follow each other. -/
theorem Sound.append {first others : List Symbol} {split : Nat} {before after : List Tree}
    (head : Sound grammar tokens first start split before)
    (tail : Sound grammar tokens others split stop after) :
    Sound grammar tokens (first ++ others) start stop (before ++ after) where
  denoted := head.denoted.append tail.denoted
  admitted tree member := (List.mem_append.1 member).elim (head.admitted tree) (tail.admitted tree)
  ordered := Nat.le_trans head.ordered tail.ordered
  leaves := by
    rw [leavesOf_append, List.map_append, head.leaves, tail.leaves,
      tokensAt_append head.ordered tail.ordered]

/-- The leaf of a token. -/
theorem Sound.leaf {table : Table} {symbol : Symbol} {tree : Tree}
    (found : (table.reading tokens).leaf? symbol start = some tree) :
    Sound grammar tokens [symbol] start (start + 1) [tree] := by
  obtain ⟨token, kind, read, matched, rfl⟩ := Reading.leaf?_eq_some_iff.1 found
  refine ⟨?_, by simpa using .leaf _, Nat.le_succ _, ?_⟩
  · cases symbol with
    | literal text =>
      rw [Rules.denotes_literal_iff]
      simp only [Symbol.matches?, Option.ite_none_right_eq_some, Option.some.injEq] at matched
      obtain ⟨rfl, rfl⟩ := matched
      exact ⟨start, rfl⟩
    | value =>
      rw [Rules.denotes_value_iff]
      cases matched
      exact ⟨token, start, rfl⟩
    | nonterminal => cases matched
  · simp [leavesOf, Tree.leaves, tokensAt, read]

/-- Trees for an alternative of a nested expression are trees for its nonterminal. -/
theorem Sound.nested {index : Nat} {alternative : List Symbol} {trees : List Tree}
    (label : ∀ id, (Rules.ofGrammar grammar).label index ≠ .named id)
    (member : alternative ∈ (Rules.ofGrammar grammar).alternatives index)
    (sound : Sound grammar tokens alternative start stop trees) :
    Sound grammar tokens [.nonterminal index] start stop trees :=
  ⟨(Rules.denotes_nested_iff label).2 ⟨alternative, member, sound.denoted⟩, sound.admitted,
    sound.ordered, sound.leaves⟩

/-- Trees for an alternative of a nonterminal are, wrapped as its label says, trees for it. -/
theorem Sound.wrap (closed : grammar.isClosed = true) (bounded : grammar.isBounded = true)
    {index : Nat} {alternative : List Symbol} {trees : List Tree}
    (proper : grammar.IsProper (.nonterminal index))
    (member : alternative ∈ (Rules.ofGrammar grammar).alternatives index)
    (sound : Sound grammar tokens alternative start stop trees) :
    Sound grammar tokens [.nonterminal index] start stop
      (Reading.wrap ((Rules.ofGrammar grammar).label index) trees) := by
  rcases proper index rfl with ⟨id, known, rfl⟩ | nested
  · have label := Grammar.label_number known
    obtain ⟨production, found⟩ := Grammar.production?_isSome known
    have matched := Expr.matches_of_denotes ((Grammar.alternatives_stand closed bounded found
      treeAtoms trees).1 ⟨alternative, member, sound.denoted⟩)
    rw [label]
    refine ⟨(Rules.denotes_named_iff label).2 ⟨trees, rfl⟩, ?_, sound.ordered, ?_⟩
    · simpa [Reading.wrap] using .branch found matched sound.admitted
    · simpa [Reading.wrap, leavesOf, Tree.leaves] using sound.leaves
  · have same : Reading.wrap ((Rules.ofGrammar grammar).label index) trees = trees := by
      cases label : (Rules.ofGrammar grammar).label index with
      | named id => exact absurd label (nested id)
      | auxiliary => rfl
      | star item => rfl
    rw [same]
    exact sound.nested nested member

namespace Reading

/-- A reader returns derivations only. -/
def ReadsSound (grammar : Grammar) (tokens : List String) (read : SpanReader) : Prop :=
  ∀ index start stop trees, grammar.IsProper (.nonterminal index) →
    read index start stop = some trees → Sound grammar tokens [.nonterminal index] start stop trees

variable {table : Table} {read : SpanReader}

/-- What is read for symbols is a derivation. -/
theorem readSymbols_sound (reads : ReadsSound grammar tokens read) {symbols : List Symbol}
    (proper : ∀ symbol ∈ symbols, grammar.IsProper symbol) {trees : List Tree}
    (found : (table.reading tokens).readSymbols read symbols start stop = some trees) :
    Sound grammar tokens symbols start stop trees := by
  induction symbols generalizing start trees with
  | nil =>
    rw [readSymbols, Option.ite_none_right_eq_some] at found
    obtain ⟨rfl, ⟨⟩⟩ := found
    exact .nil start
  | cons symbol rest ih =>
    have later := fun {split : Nat} {others : List Tree} =>
      @ih split (fun other member => proper other (List.mem_cons_of_mem _ member)) others
    have atTerminal (terminal : ∀ index, symbol ≠ .nonterminal index) :
        Sound grammar tokens (symbol :: rest) start stop trees := by
      rw [readSymbols_terminal _ _ terminal, Option.ite_none_right_eq_some] at found
      obtain ⟨_, found⟩ := found
      obtain ⟨tree, leaf, found⟩ := Option.bind_eq_some_iff.1 found
      obtain ⟨others, tail, rfl⟩ := Option.map_eq_some_iff.1 found
      exact (Sound.leaf leaf).append (later tail)
    cases symbol with
    | nonterminal index =>
      rw [readSymbols] at found
      obtain ⟨split, _, found⟩ := List.exists_of_findSome?_eq_some found
      rw [Option.ite_none_right_eq_some] at found
      obtain ⟨_, found⟩ := found
      cases head : read index start split with
      | none =>
        rw [head] at found
        cases found
      | some first =>
        rw [head] at found
        obtain ⟨others, tail, rfl⟩ := Option.map_eq_some_iff.1 found
        exact (reads index start split first (proper _ List.mem_cons_self) head).append
          (later tail)
    | literal text => exact atTerminal (by simp)
    | value => exact atTerminal (by simp)

/-- What is read for an item is a derivation. -/
theorem readItem_sound (reads : ReadsSound grammar tokens read) {item : Symbol}
    (proper : grammar.IsProper item) {trees : List Tree}
    (found : (table.reading tokens).readItem read item start stop = some trees) :
    Sound grammar tokens [item] start stop trees := by
  have atTerminal (found : (if start + 1 = stop then
      ((table.reading tokens).leaf? item start).map ([·]) else none) = some trees) :
      Sound grammar tokens [item] start stop trees := by
    rw [Option.ite_none_right_eq_some] at found
    obtain ⟨rfl, one⟩ := found
    obtain ⟨tree, leaf, rfl⟩ := Option.map_eq_some_iff.1 one
    exact Sound.leaf leaf
  cases item with
  | nonterminal index => exact reads index start stop trees proper found
  | literal text => exact atTerminal found
  | value => exact atTerminal found

/-- Reading further items goes on with a derivation of a star. -/
theorem readItems_sound (reads : ReadsSound grammar tokens read) {number : Nat} {item : Symbol}
    (label : (Rules.ofGrammar grammar).label number = .star item)
    (member : [.nonterminal number, item] ∈ (Rules.ofGrammar grammar).alternatives number)
    (proper : grammar.IsProper item) {starts : List Nat} {fuel place : Nat}
    {before trees : List Tree}
    (sound : Sound grammar tokens [.nonterminal number] start place before)
    (found : (table.reading tokens).readItems read item starts stop fuel place = some trees) :
    Sound grammar tokens [.nonterminal number] start stop (before ++ trees) := by
  induction fuel generalizing place before trees with
  | zero =>
    rw [readItems, Option.ite_none_right_eq_some] at found
    obtain ⟨rfl, ⟨⟩⟩ := found
    simpa using sound
  | succ fuel ih =>
    rw [readItems] at found
    split at found
    · next done =>
      cases found
      simpa [← done] using sound
    · simp only at found
      split at found
      · cases found
      · next split first step =>
        obtain ⟨others, tail, rfl⟩ := Option.map_eq_some_iff.1 found
        obtain ⟨place', _, read'⟩ := List.exists_of_findSome?_eq_some step
        rw [Option.ite_none_right_eq_some] at read'
        obtain ⟨trees', head, same⟩ := Option.map_eq_some_iff.1 read'.2
        cases same
        have more : Sound grammar tokens [.nonterminal number] start split (before ++ first) :=
          (sound.append (readItem_sound reads proper head)).nested (by simp [label]) member
        rw [← List.append_assoc]
        exact ih more tail

/-- With the items of stars read in a loop, what is read for a nonterminal is a derivation. -/
theorem readEither_sound (closed : grammar.isClosed = true)
    (reads : ReadsSound grammar tokens read) :
    ReadsSound grammar tokens
      (((Table.ofGrammar grammar).reading tokens).readEither read) := by
  intro index start stop trees proper found
  unfold readEither at found
  rw [Table.rules_reading, Table.rules_ofGrammar] at found
  split at found
  · next item label =>
    have shape := (Grammar.starShaped closed).alternatives label
    have member : [.nonterminal index, item] ∈ (Rules.ofGrammar grammar).alternatives index := by
      simp [shape]
    have none_yet : Sound grammar tokens [.nonterminal index] start start [] :=
      (Sound.nil start).nested (by simp [label]) (by simp [shape])
    rw [readStar] at found
    simp only [Option.ite_none_right_eq_some] at found
    have inner := Grammar.proper closed member (List.mem_cons_of_mem _ (List.mem_singleton_self _))
    exact readItems_sound reads label member inner none_yet found.2
  · exact reads index start stop trees proper found
  · exact reads index start stop trees proper found

/-- What is read for a nonterminal by its alternatives is a derivation. -/
theorem readAlternatives_sound (closed : grammar.isClosed = true)
    (bounded : grammar.isBounded = true) (fuel : Nat) (opened : List Span) :
    ReadsSound grammar tokens
      (((Table.ofGrammar grammar).reading tokens).readAlternatives fuel opened) := by
  induction fuel generalizing opened with
  | zero =>
    intro index start stop trees proper found
    cases found
  | succ fuel ih =>
    intro index start stop trees proper found
    rw [readAlternatives, Option.ite_none_left_eq_some] at found
    simp only at found
    obtain ⟨children, chosen, rfl⟩ := Option.map_eq_some_iff.1 found.2
    obtain ⟨alternative, member, read⟩ := List.exists_of_findSome?_eq_some chosen
    rw [Option.ite_none_right_eq_some] at read
    rw [Table.rules_reading, Table.rules_ofGrammar] at member ⊢
    have inner := readSymbols_sound (readEither_sound closed (ih _))
      (fun symbol inside => Grammar.proper closed member inside) read.2
    exact inner.wrap closed bounded proper member

/-- What is read for the start node on all tokens is one branch of it, and a derivation. -/
theorem whole_sound (closed : grammar.isClosed = true) (bounded : grammar.isBounded = true)
    {trees : List Tree}
    (found : ((Table.ofGrammar grammar).reading tokens).whole (Rules.ofGrammar grammar).start =
      some trees) :
    ∃ children, trees = [.branch grammar.start children] ∧
      grammar.Admits (.branch grammar.start children) ∧
      (leavesOf children).map (fun leaf => (leaf.text, leaf.index)) = tokens.zipIdx := by
  have known := Grammar.start_known closed
  have proper : grammar.IsProper (.nonterminal (grammar.number grammar.start)) := by
    rintro _ ⟨⟩
    exact .inl ⟨grammar.start, known, rfl⟩
  have sound := readEither_sound closed (readAlternatives_sound closed bounded _ [])
    _ _ _ trees proper found
  obtain ⟨children, rfl⟩ := (Rules.denotes_named_iff (Grammar.label_number known)).1 sound.denoted
  refine ⟨children, rfl, sound.admitted _ (List.mem_singleton_self _), ?_⟩
  have leaves := sound.leaves
  change _ = tokensAt tokens 0 tokens.length at leaves
  rw [tokensAt_all] at leaves
  have each : Function.Injective fun mark : String × Nat => (some mark.1, mark.2) := by
    rintro ⟨text, place⟩ ⟨other, later⟩ same
    simpa using same
  apply List.map_injective_iff.2 each
  rw [List.map_map]
  simpa [leavesOf, Tree.leaves, Function.comp_def] using leaves

end Reading

end CommandGrammar
