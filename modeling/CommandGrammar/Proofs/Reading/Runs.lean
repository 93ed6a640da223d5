import Mathlib
import CommandGrammar.Chart.Reading

/-!
# Runs of the reader

Reading a nonterminal calls itself over and over, on nested expressions, on the symbols of
alternatives and on the items of stars, and keeps in mind which nonterminals are open and which
questions about symbols were answered. A run is such a call with all calls inside it. Nothing bounds
the calls: a call that does not come to an end has no run.
-/

namespace CommandGrammar

namespace Reading

/-- A question: can symbols match the tokens between two places? -/
abbrev Question := List Symbol × Nat × Nat

/-- Answers to questions. -/
abbrev Answers := List (Question × Bool)

/-- What is asked of symbols. -/
inductive Query where
  /-- They can match the tokens between two places. -/
  | fits (symbols : List Symbol) (start stop : Nat)
  /-- They can match the tokens between one of some places and another place. -/
  | fitsAny (symbols : List Symbol) (starts : List Nat) (stop : Nat)

/-- A query, with the answers known before it, is answered, and leaves more answers known. -/
inductive Decides (reading : Reading) : Query → Answers → Bool → Answers → Prop where
  /-- A question that has an answer is not asked again. -/
  | known {symbols : List Symbol} {start stop : Nat} {answers : Answers} {answer : Bool}
      (found : answers.lookup (symbols, start, stop) = some answer) :
      Decides reading (.fits symbols start stop) answers answer answers
  /-- No symbols match no tokens. -/
  | nil {start stop : Nat} {answers : Answers} (new : answers.lookup ([], start, stop) = none) :
      Decides reading (.fits [] start stop) answers (start == stop)
        ((([], start, stop), start == stop) :: answers)
  /-- Symbols match if the others do after one of the ends of the first. -/
  | cons {symbol : Symbol} {rest : List Symbol} {start stop : Nat} {answers later : Answers}
      {answer : Bool} (new : answers.lookup (symbol :: rest, start, stop) = none)
      (others : Decides reading (.fitsAny rest (reading.symbolEnds symbol start stop) stop)
        answers answer later) :
      Decides reading (.fits (symbol :: rest) start stop) answers answer
        (((symbol :: rest, start, stop), answer) :: later)
  /-- There is no place left to begin at. -/
  | none {symbols : List Symbol} {stop : Nat} {answers : Answers} :
      Decides reading (.fitsAny symbols [] stop) answers false answers
  /-- The first place will do. -/
  | here {symbols : List Symbol} {start stop : Nat} {starts : List Nat} {answers later : Answers}
      (first : Decides reading (.fits symbols start stop) answers true later) :
      Decides reading (.fitsAny symbols (start :: starts) stop) answers true later
  /-- The first place will not do. -/
  | there {symbols : List Symbol} {start stop : Nat} {starts : List Nat}
      {answers middle later : Answers} {answer : Bool}
      (first : Decides reading (.fits symbols start stop) answers false middle)
      (others : Decides reading (.fitsAny symbols starts stop) middle answer later) :
      Decides reading (.fitsAny symbols (start :: starts) stop) answers answer later

/-- What the reader keeps in mind. -/
structure Memory where
  /-- The nonterminals that are open, with their spans. -/
  opened : List Span
  /-- The answers that are known. -/
  answers : Answers

/-- A call of the reader, or a loop inside one. -/
inductive Task where
  /-- A nonterminal between two places. -/
  | read (index start stop : Nat)
  /-- The first of some alternatives that works out. -/
  | choose (alternatives : List (List Symbol)) (start stop : Nat)
  /-- Symbols, one after the other. -/
  | follow (symbols : List Symbol) (start stop : Nat)
  /-- A nonterminal up to the first of some splits that works out, and then symbols. -/
  | divide (index : Nat) (rest : List Symbol) (splits : List Nat) (start stop : Nat)
  /-- Items of a star, given the places from which items lead to the end. -/
  | items (item : Symbol) (starts : List Nat) (start stop : Nat)
  /-- An item up to the first of some splits that works out, and then further items. -/
  | turn (item : Symbol) (starts splits : List Nat) (start stop : Nat)
  /-- One item. -/
  | item (item : Symbol) (start stop : Nat)

/-- A task comes to an end, with what it read and what is kept in mind after it. -/
inductive Runs (reading : Reading) : Memory → Task → Option (List Tree) → Memory → Prop where
  /-- A star from which no items lead to the end is not read. -/
  | starless {memory : Memory} {index start stop : Nat} {item : Symbol}
      (star : reading.rules.label index = .star item)
      (blocked : start ∉ reading.itemStarts item stop (stop - start)) :
      Runs reading memory (.read index start stop) none memory
  /-- A star is read by its items. It is not opened. -/
  | star {memory after : Memory} {index start stop : Nat} {item : Symbol}
      {trees : Option (List Tree)} (star : reading.rules.label index = .star item)
      (leads : start ∈ reading.itemStarts item stop (stop - start))
      (items : Runs reading memory
        (.items item (reading.itemStarts item stop (stop - start)) start stop) trees after) :
      Runs reading memory (.read index start stop) trees after
  /-- A nonterminal that is open on the same span is refused. -/
  | refused {memory : Memory} {index start stop : Nat}
      (plain : ∀ item, reading.rules.label index ≠ .star item)
      (opened : (index, start, stop) ∈ memory.opened) :
      Runs reading memory (.read index start stop) none memory
  /-- Any other nonterminal is open while its alternatives are tried. -/
  | entered {memory after : Memory} {index start stop : Nat} {trees : Option (List Tree)}
      (plain : ∀ item, reading.rules.label index ≠ .star item)
      (free : (index, start, stop) ∉ memory.opened)
      (chosen : Runs reading ⟨(index, start, stop) :: memory.opened, memory.answers⟩
        (.choose (reading.rules.alternatives index) start stop) trees after) :
      Runs reading memory (.read index start stop)
        (trees.map (wrap (reading.rules.label index)))
        ⟨after.opened.erase (index, start, stop), after.answers⟩
  /-- No alternative is left. -/
  | exhausted {memory : Memory} {start stop : Nat} :
      Runs reading memory (.choose [] start stop) none memory
  /-- The first alternative cannot match. -/
  | skipped {memory after : Memory} {symbols : List Symbol} {others : List (List Symbol)}
      {start stop : Nat} {later : Answers} {trees : Option (List Tree)}
      (unfit : Decides reading (.fits symbols start stop) memory.answers false later)
      (next : Runs reading ⟨memory.opened, later⟩ (.choose others start stop) trees after) :
      Runs reading memory (.choose (symbols :: others) start stop) trees after
  /-- The first alternative does not work out. -/
  | failed {memory middle after : Memory} {symbols : List Symbol} {others : List (List Symbol)}
      {start stop : Nat} {later : Answers} {trees : Option (List Tree)}
      (fit : Decides reading (.fits symbols start stop) memory.answers true later)
      (tried : Runs reading ⟨memory.opened, later⟩ (.follow symbols start stop) none middle)
      (next : Runs reading middle (.choose others start stop) trees after) :
      Runs reading memory (.choose (symbols :: others) start stop) trees after
  /-- The first alternative works out. -/
  | chosen {memory after : Memory} {symbols : List Symbol} {others : List (List Symbol)}
      {start stop : Nat} {later : Answers} {trees : List Tree}
      (fit : Decides reading (.fits symbols start stop) memory.answers true later)
      (tried : Runs reading ⟨memory.opened, later⟩ (.follow symbols start stop) (some trees)
        after) : Runs reading memory (.choose (symbols :: others) start stop) (some trees) after
  /-- After the last symbol the end is reached, or not. -/
  | ended {memory : Memory} {start stop : Nat} :
      Runs reading memory (.follow [] start stop) (if start = stop then some [] else none) memory
  /-- A nonterminal is read up to one of its ends. -/
  | nonterminal {memory after : Memory} {index : Nat} {rest : List Symbol} {start stop : Nat}
      {trees : Option (List Tree)}
      (divided : Runs reading memory
        (.divide index rest (reading.symbolEnds (.nonterminal index) start stop) start stop)
        trees after) :
      Runs reading memory (.follow (.nonterminal index :: rest) start stop) trees after
  /-- A terminal that matches the token is a leaf. -/
  | leaf {memory after : Memory} {symbol : Symbol} {rest : List Symbol} {start stop : Nat}
      {tree : Tree} {trees : Option (List Tree)}
      (terminal : ∀ index, symbol ≠ .nonterminal index) (below : start < stop)
      (found : reading.leaf? symbol start = some tree)
      (next : Runs reading memory (.follow rest (start + 1) stop) trees after) :
      Runs reading memory (.follow (symbol :: rest) start stop) (trees.map (tree :: ·)) after
  /-- A terminal that does not match is not read. -/
  | mismatch {memory : Memory} {symbol : Symbol} {rest : List Symbol} {start stop : Nat}
      (terminal : ∀ index, symbol ≠ .nonterminal index)
      (differs : start < stop → reading.leaf? symbol start = none) :
      Runs reading memory (.follow (symbol :: rest) start stop) none memory
  /-- No split is left. -/
  | undivided {memory : Memory} {index : Nat} {rest : List Symbol} {start stop : Nat} :
      Runs reading memory (.divide index rest [] start stop) none memory
  /-- After the first split the symbols cannot match. -/
  | splitSkipped {memory after : Memory} {index : Nat} {rest : List Symbol} {split : Nat}
      {splits : List Nat} {start stop : Nat} {later : Answers} {trees : Option (List Tree)}
      (unfit : Decides reading (.fits rest split stop) memory.answers false later)
      (next : Runs reading ⟨memory.opened, later⟩ (.divide index rest splits start stop) trees
        after) : Runs reading memory (.divide index rest (split :: splits) start stop) trees after
  /-- The nonterminal is not read up to the first split. -/
  | splitRefused {memory middle after : Memory} {index : Nat} {rest : List Symbol} {split : Nat}
      {splits : List Nat} {start stop : Nat} {later : Answers} {trees : Option (List Tree)}
      (fit : Decides reading (.fits rest split stop) memory.answers true later)
      (tried : Runs reading ⟨memory.opened, later⟩ (.read index start split) none middle)
      (next : Runs reading middle (.divide index rest splits start stop) trees after) :
      Runs reading memory (.divide index rest (split :: splits) start stop) trees after
  /-- The symbols are not read after the first split. -/
  | splitFailed {memory between middle after : Memory} {index : Nat} {rest : List Symbol}
      {split : Nat} {splits : List Nat} {start stop : Nat} {later : Answers} {first : List Tree}
      {trees : Option (List Tree)}
      (fit : Decides reading (.fits rest split stop) memory.answers true later)
      (tried : Runs reading ⟨memory.opened, later⟩ (.read index start split) (some first) between)
      (others : Runs reading between (.follow rest split stop) none middle)
      (next : Runs reading middle (.divide index rest splits start stop) trees after) :
      Runs reading memory (.divide index rest (split :: splits) start stop) trees after
  /-- The first split works out. -/
  | splitTaken {memory between after : Memory} {index : Nat} {rest : List Symbol} {split : Nat}
      {splits : List Nat} {start stop : Nat} {later : Answers} {first trees : List Tree}
      (fit : Decides reading (.fits rest split stop) memory.answers true later)
      (tried : Runs reading ⟨memory.opened, later⟩ (.read index start split) (some first) between)
      (others : Runs reading between (.follow rest split stop) (some trees) after) :
      Runs reading memory (.divide index rest (split :: splits) start stop)
        (some (first ++ trees)) after
  /-- There are items up to the end. -/
  | finished {memory : Memory} {item : Symbol} {starts : List Nat} {start stop : Nat}
      (reached : stop ≤ start) :
      Runs reading memory (.items item starts start stop) (some []) memory
  /-- Before the end an item is read. -/
  | unfinished {memory after : Memory} {item : Symbol} {starts : List Nat} {start stop : Nat}
      {trees : Option (List Tree)} (before : start < stop)
      (turn : Runs reading memory
        (.turn item starts (reading.itemEnds item start stop) start stop) trees after) :
      Runs reading memory (.items item starts start stop) trees after
  /-- No split is left for the item. -/
  | turnless {memory : Memory} {item : Symbol} {starts : List Nat} {start stop : Nat} :
      Runs reading memory (.turn item starts [] start stop) none memory
  /-- No items lead from the first split to the end. -/
  | turnSkipped {memory after : Memory} {item : Symbol} {starts : List Nat} {split : Nat}
      {splits : List Nat} {start stop : Nat} {trees : Option (List Tree)}
      (blocked : split ∉ starts)
      (next : Runs reading memory (.turn item starts splits start stop) trees after) :
      Runs reading memory (.turn item starts (split :: splits) start stop) trees after
  /-- The item is not read up to the first split. -/
  | turnFailed {memory middle after : Memory} {item : Symbol} {starts : List Nat} {split : Nat}
      {splits : List Nat} {start stop : Nat} {trees : Option (List Tree)}
      (leads : split ∈ starts)
      (tried : Runs reading memory (.item item start split) none middle)
      (next : Runs reading middle (.turn item starts splits start stop) trees after) :
      Runs reading memory (.turn item starts (split :: splits) start stop) trees after
  /-- The item is read up to the first split, and further items are read from there. -/
  | turnTaken {memory middle after : Memory} {item : Symbol} {starts : List Nat} {split : Nat}
      {splits : List Nat} {start stop : Nat} {first : List Tree} {trees : Option (List Tree)}
      (leads : split ∈ starts)
      (tried : Runs reading memory (.item item start split) (some first) middle)
      (others : Runs reading middle (.items item starts split stop) trees after) :
      Runs reading memory (.turn item starts (split :: splits) start stop)
        (trees.map (first ++ ·)) after
  /-- An item that is a nonterminal is read as one. -/
  | itemRead {memory after : Memory} {index start stop : Nat} {trees : Option (List Tree)}
      (tried : Runs reading memory (.read index start stop) trees after) :
      Runs reading memory (.item (.nonterminal index) start stop) trees after
  /-- Any other item is a leaf of one token. -/
  | itemLeaf {memory : Memory} {symbol : Symbol} {start stop : Nat}
      (terminal : ∀ index, symbol ≠ .nonterminal index) :
      Runs reading memory (.item symbol start stop)
        (if start + 1 = stop then (reading.leaf? symbol start).map ([·]) else none) memory

variable {reading : Reading}

/-! ## One run only -/

/-- A query has one answer, and leaves one state of answers. -/
theorem Decides.unique {query : Query} {answers later later' : Answers} {answer answer' : Bool}
    (first : reading.Decides query answers answer later)
    (second : reading.Decides query answers answer' later') :
    answer' = answer ∧ later' = later := by
  induction first generalizing answer' later' with
  | known found =>
    cases second with
    | known found' =>
      rw [found] at found'
      exact ⟨(Option.some.inj found').symm, rfl⟩
    | nil new | cons new =>
      rw [found] at new
      cases new
  | nil new =>
    cases second with
    | known found =>
      rw [new] at found
      cases found
    | nil => exact ⟨rfl, rfl⟩
  | cons new _ ih =>
    cases second with
    | known found =>
      rw [new] at found
      cases found
    | cons _ others =>
      obtain ⟨rfl, rfl⟩ := ih others
      exact ⟨rfl, rfl⟩
  | none =>
    cases second
    exact ⟨rfl, rfl⟩
  | here _ ih =>
    cases second with
    | here first => exact ⟨rfl, (ih first).2⟩
    | there first => cases (ih first).1
  | there _ _ firstIH othersIH =>
    cases second with
    | here first => cases (firstIH first).1
    | there first others =>
      obtain ⟨_, rfl⟩ := firstIH first
      exact othersIH others

/-- Nothing else can come of a task. -/
def Sole (reading : Reading) (memory : Memory) (task : Task) (trees : Option (List Tree))
    (after : Memory) : Prop :=
  ∀ trees' after', reading.Runs memory task trees' after' → trees' = trees ∧ after' = after

section Steps

/-! A nonterminal is read in one of four ways, which its label and the open nonterminals tell
apart. An alternative, a split or a turn is skipped, fails or works out: what is asked first
decides between skipping and trying, and the results of what is tried decide the rest. -/

variable {memory between middle after : Memory} {later : Answers} {start stop split : Nat}
  {splits : List Nat} {first trees : List Tree} {result : Option (List Tree)} {index : Nat}
  {item symbol : Symbol} {rest symbols : List Symbol} {others : List (List Symbol)}
  {starts : List Nat}

/-- A star from which no items lead to the end is only not read. -/
theorem sole_starless (star : reading.rules.label index = .star item)
    (blocked : start ∉ reading.itemStarts item stop (stop - start)) :
    reading.Sole memory (.read index start stop) none memory := by
  intro trees' after' runs
  cases runs with
  | starless => exact ⟨rfl, rfl⟩
  | star star' leads =>
    cases star.symm.trans star'
    exact absurd leads blocked
  | refused plain | entered plain => exact absurd star (plain _)

/-- A star from which items lead to the end is only read by them. -/
theorem Sole.star (star : reading.rules.label index = .star item)
    (leads : start ∈ reading.itemStarts item stop (stop - start))
    (items : reading.Sole memory
      (.items item (reading.itemStarts item stop (stop - start)) start stop) result after) :
    reading.Sole memory (.read index start stop) result after := by
  intro trees' after' runs
  cases runs with
  | starless star' blocked =>
    cases star.symm.trans star'
    exact absurd leads blocked
  | star star' _ runs =>
    cases star.symm.trans star'
    exact items _ _ runs
  | refused plain | entered plain => exact absurd star (plain _)

/-- A nonterminal that is open is only refused. -/
theorem sole_refused (plain : ∀ item, reading.rules.label index ≠ .star item)
    (opened : (index, start, stop) ∈ memory.opened) :
    reading.Sole memory (.read index start stop) none memory := by
  intro trees' after' runs
  cases runs with
  | starless star | star star => exact absurd star (plain _)
  | refused => exact ⟨rfl, rfl⟩
  | entered _ free => exact absurd opened free

/-- A nonterminal that is not open is only entered. -/
theorem Sole.entered (plain : ∀ item, reading.rules.label index ≠ .star item)
    (free : (index, start, stop) ∉ memory.opened)
    (chosen : reading.Sole ⟨(index, start, stop) :: memory.opened, memory.answers⟩
      (.choose (reading.rules.alternatives index) start stop) result after) :
    reading.Sole memory (.read index start stop) (result.map (wrap (reading.rules.label index)))
      ⟨after.opened.erase (index, start, stop), after.answers⟩ := by
  intro trees' after' runs
  cases runs with
  | starless star | star star => exact absurd star (plain _)
  | refused _ opened => exact absurd opened free
  | entered _ _ runs =>
    obtain ⟨rfl, rfl⟩ := chosen _ _ runs
    exact ⟨rfl, rfl⟩

/-- A terminal that matches is only a leaf. -/
theorem Sole.leaf {tree : Tree} (terminal : ∀ index, symbol ≠ .nonterminal index)
    (below : start < stop) (found : reading.leaf? symbol start = some tree)
    (next : reading.Sole memory (.follow rest (start + 1) stop) result after) :
    reading.Sole memory (.follow (symbol :: rest) start stop) (result.map (tree :: ·)) after := by
  intro trees' after' runs
  cases runs with
  | nonterminal => exact absurd rfl (terminal _)
  | leaf _ _ found' runs =>
    cases found.symm.trans found'
    obtain ⟨rfl, rfl⟩ := next _ _ runs
    exact ⟨rfl, rfl⟩
  | mismatch _ differs => cases found.symm.trans (differs below)

/-- A terminal that does not match is only not read. -/
theorem sole_mismatch (terminal : ∀ index, symbol ≠ .nonterminal index)
    (differs : start < stop → reading.leaf? symbol start = none) :
    reading.Sole memory (.follow (symbol :: rest) start stop) none memory := by
  intro trees' after' runs
  cases runs with
  | nonterminal => exact absurd rfl (terminal _)
  | leaf _ below found => cases (differs below).symm.trans found
  | mismatch => exact ⟨rfl, rfl⟩

/-- An alternative that cannot match is only skipped. -/
theorem Sole.skipped
    (unfit : reading.Decides (.fits symbols start stop) memory.answers false later)
    (next : reading.Sole ⟨memory.opened, later⟩ (.choose others start stop) result after) :
    reading.Sole memory (.choose (symbols :: others) start stop) result after := by
  intro trees' after' runs
  cases runs with
  | skipped unfit' runs =>
    obtain ⟨_, rfl⟩ := unfit.unique unfit'
    exact next _ _ runs
  | failed fit | chosen fit => cases (unfit.unique fit).1

/-- An alternative that fails only gives way to the others. -/
theorem Sole.failed
    (fit : reading.Decides (.fits symbols start stop) memory.answers true later)
    (tried : reading.Sole ⟨memory.opened, later⟩ (.follow symbols start stop) none middle)
    (next : reading.Sole middle (.choose others start stop) result after) :
    reading.Sole memory (.choose (symbols :: others) start stop) result after := by
  intro trees' after' runs
  cases runs with
  | skipped unfit => cases (fit.unique unfit).1
  | failed fit' failed runs =>
    obtain ⟨_, rfl⟩ := fit.unique fit'
    obtain ⟨_, rfl⟩ := tried _ _ failed
    exact next _ _ runs
  | chosen fit' worked =>
    obtain ⟨_, rfl⟩ := fit.unique fit'
    cases (tried _ _ worked).1

/-- An alternative that works out is only chosen. -/
theorem Sole.chosen
    (fit : reading.Decides (.fits symbols start stop) memory.answers true later)
    (tried : reading.Sole ⟨memory.opened, later⟩ (.follow symbols start stop) (some trees)
      after) : reading.Sole memory (.choose (symbols :: others) start stop) (some trees) after := by
  intro trees' after' runs
  cases runs with
  | skipped unfit => cases (fit.unique unfit).1
  | failed fit' failed =>
    obtain ⟨_, rfl⟩ := fit.unique fit'
    cases (tried _ _ failed).1
  | chosen fit' worked =>
    obtain ⟨_, rfl⟩ := fit.unique fit'
    exact tried _ _ worked

/-- A split after which the symbols cannot match is only skipped. -/
theorem Sole.splitSkipped
    (unfit : reading.Decides (.fits rest split stop) memory.answers false later)
    (next : reading.Sole ⟨memory.opened, later⟩ (.divide index rest splits start stop) result
      after) :
    reading.Sole memory (.divide index rest (split :: splits) start stop) result after := by
  intro trees' after' runs
  cases runs with
  | splitSkipped unfit' runs =>
    obtain ⟨_, rfl⟩ := unfit.unique unfit'
    exact next _ _ runs
  | splitRefused fit | splitFailed fit | splitTaken fit => cases (unfit.unique fit).1

/-- A split up to which the nonterminal is not read only gives way to the others. -/
theorem Sole.splitRefused
    (fit : reading.Decides (.fits rest split stop) memory.answers true later)
    (tried : reading.Sole ⟨memory.opened, later⟩ (.read index start split) none middle)
    (next : reading.Sole middle (.divide index rest splits start stop) result after) :
    reading.Sole memory (.divide index rest (split :: splits) start stop) result after := by
  intro trees' after' runs
  cases runs with
  | splitSkipped unfit => cases (fit.unique unfit).1
  | splitRefused fit' refused runs =>
    obtain ⟨_, rfl⟩ := fit.unique fit'
    obtain ⟨_, rfl⟩ := tried _ _ refused
    exact next _ _ runs
  | splitFailed fit' read | splitTaken fit' read =>
    obtain ⟨_, rfl⟩ := fit.unique fit'
    cases (tried _ _ read).1

/-- A split after which the symbols are not read only gives way to the others. -/
theorem Sole.splitFailed
    (fit : reading.Decides (.fits rest split stop) memory.answers true later)
    (tried : reading.Sole ⟨memory.opened, later⟩ (.read index start split) (some first) between)
    (followed : reading.Sole between (.follow rest split stop) none middle)
    (next : reading.Sole middle (.divide index rest splits start stop) result after) :
    reading.Sole memory (.divide index rest (split :: splits) start stop) result after := by
  intro trees' after' runs
  cases runs with
  | splitSkipped unfit => cases (fit.unique unfit).1
  | splitRefused fit' refused =>
    obtain ⟨_, rfl⟩ := fit.unique fit'
    cases (tried _ _ refused).1
  | splitFailed fit' read failed runs =>
    obtain ⟨_, rfl⟩ := fit.unique fit'
    obtain ⟨_, rfl⟩ := tried _ _ read
    obtain ⟨_, rfl⟩ := followed _ _ failed
    exact next _ _ runs
  | splitTaken fit' read worked =>
    obtain ⟨_, rfl⟩ := fit.unique fit'
    obtain ⟨_, rfl⟩ := tried _ _ read
    cases (followed _ _ worked).1

/-- A split that works out is only taken. -/
theorem Sole.splitTaken
    (fit : reading.Decides (.fits rest split stop) memory.answers true later)
    (tried : reading.Sole ⟨memory.opened, later⟩ (.read index start split) (some first) between)
    (followed : reading.Sole between (.follow rest split stop) (some trees) after) :
    reading.Sole memory (.divide index rest (split :: splits) start stop) (some (first ++ trees))
      after := by
  intro trees' after' runs
  cases runs with
  | splitSkipped unfit => cases (fit.unique unfit).1
  | splitRefused fit' refused =>
    obtain ⟨_, rfl⟩ := fit.unique fit'
    cases (tried _ _ refused).1
  | splitFailed fit' read failed =>
    obtain ⟨_, rfl⟩ := fit.unique fit'
    obtain ⟨_, rfl⟩ := tried _ _ read
    cases (followed _ _ failed).1
  | splitTaken fit' read worked =>
    obtain ⟨_, rfl⟩ := fit.unique fit'
    obtain ⟨same, rfl⟩ := tried _ _ read
    obtain ⟨same', rfl⟩ := followed _ _ worked
    cases same
    cases same'
    exact ⟨rfl, rfl⟩

/-- A split from which no items lead on is only skipped. -/
theorem Sole.turnSkipped (blocked : split ∉ starts)
    (next : reading.Sole memory (.turn item starts splits start stop) result after) :
    reading.Sole memory (.turn item starts (split :: splits) start stop) result after := by
  intro trees' after' runs
  cases runs with
  | turnSkipped _ runs => exact next _ _ runs
  | turnFailed leads | turnTaken leads => exact absurd leads blocked

/-- A split up to which the item is not read only gives way to the others. -/
theorem Sole.turnFailed (leads : split ∈ starts)
    (tried : reading.Sole memory (.item item start split) none middle)
    (next : reading.Sole middle (.turn item starts splits start stop) result after) :
    reading.Sole memory (.turn item starts (split :: splits) start stop) result after := by
  intro trees' after' runs
  cases runs with
  | turnSkipped blocked => exact absurd leads blocked
  | turnFailed _ failed runs =>
    obtain ⟨_, rfl⟩ := tried _ _ failed
    exact next _ _ runs
  | turnTaken _ worked => cases (tried _ _ worked).1

/-- A split up to which the item is read is only taken. -/
theorem Sole.turnTaken (leads : split ∈ starts)
    (tried : reading.Sole memory (.item item start split) (some first) middle)
    (further : reading.Sole middle (.items item starts split stop) result after) :
    reading.Sole memory (.turn item starts (split :: splits) start stop)
      (result.map (first ++ ·)) after := by
  intro trees' after' runs
  cases runs with
  | turnSkipped blocked => exact absurd leads blocked
  | turnFailed _ failed => cases (tried _ _ failed).1
  | turnTaken _ worked runs =>
    obtain ⟨same, rfl⟩ := tried _ _ worked
    obtain ⟨rfl, rfl⟩ := further _ _ runs
    cases same
    exact ⟨rfl, rfl⟩

end Steps

/-- What comes of a task is the only thing that can. -/
theorem Runs.sole {memory after : Memory} {task : Task} {trees : Option (List Tree)}
    (runs : reading.Runs memory task trees after) : reading.Sole memory task trees after := by
  induction runs with
  | starless star blocked => exact sole_starless star blocked
  | star star leads _ ih => exact ih.star star leads
  | refused plain opened => exact sole_refused plain opened
  | entered plain free _ ih => exact ih.entered plain free
  | skipped unfit _ ih => exact ih.skipped unfit
  | failed fit _ _ triedIH nextIH => exact triedIH.failed fit nextIH
  | chosen fit _ triedIH => exact triedIH.chosen fit
  | leaf terminal below found _ ih => exact ih.leaf terminal below found
  | mismatch terminal differs => exact sole_mismatch terminal differs
  | splitSkipped unfit _ ih => exact ih.splitSkipped unfit
  | splitRefused fit _ _ triedIH nextIH => exact triedIH.splitRefused fit nextIH
  | splitFailed fit _ _ _ triedIH followedIH nextIH =>
    exact triedIH.splitFailed fit followedIH nextIH
  | splitTaken fit _ _ triedIH followedIH => exact triedIH.splitTaken fit followedIH
  | turnSkipped blocked _ ih => exact ih.turnSkipped blocked
  | turnFailed leads _ _ triedIH nextIH => exact triedIH.turnFailed leads nextIH
  | turnTaken leads _ _ triedIH furtherIH => exact triedIH.turnTaken leads furtherIH
  | nonterminal _ ih =>
    intro trees' after' second
    cases second with
    | nonterminal divided => exact ih _ _ divided
    | leaf terminal | mismatch terminal => exact absurd rfl (terminal _)
  | finished reached =>
    intro trees' after' second
    cases second with
    | finished => exact ⟨rfl, rfl⟩
    | unfinished before => exact absurd before (Nat.not_lt.2 reached)
  | unfinished before _ ih =>
    intro trees' after' second
    cases second with
    | finished reached => exact absurd before (Nat.not_lt.2 reached)
    | unfinished _ turn => exact ih _ _ turn
  | itemRead _ ih =>
    intro trees' after' second
    cases second with
    | itemRead tried => exact ih _ _ tried
    | itemLeaf terminal => exact absurd rfl (terminal _)
  | itemLeaf terminal =>
    intro trees' after' second
    cases second with
    | itemRead => exact absurd rfl (terminal _)
    | itemLeaf => exact ⟨rfl, rfl⟩
  | exhausted | ended | undivided | turnless =>
    intro trees' after' second
    cases second
    exact ⟨rfl, rfl⟩

/-- A task has one run. -/
theorem Runs.unique {memory after after' : Memory} {task : Task} {trees trees' : Option (List Tree)}
    (first : reading.Runs memory task trees after)
    (second : reading.Runs memory task trees' after') : trees' = trees ∧ after' = after :=
  first.sole _ _ second

/-! ## Open nonterminals -/

/-- After a run the same nonterminals are open as before it. -/
theorem Runs.opened {memory after : Memory} {task : Task} {trees : Option (List Tree)}
    (runs : reading.Runs memory task trees after) : after.opened = memory.opened := by
  induction runs with
  | starless | refused | exhausted | ended | mismatch | undivided | finished | turnless
  | itemLeaf => rfl
  | star _ _ _ ih | skipped _ _ ih | chosen _ _ ih | nonterminal _ ih | leaf _ _ _ _ ih
  | splitSkipped _ _ ih | unfinished _ _ ih | turnSkipped _ _ ih | itemRead _ ih => exact ih
  | failed _ _ _ triedIH nextIH | splitRefused _ _ _ triedIH nextIH
  | turnFailed _ _ _ triedIH nextIH => exact nextIH.trans triedIH
  | splitTaken _ _ _ triedIH othersIH | turnTaken _ _ _ triedIH othersIH =>
    exact othersIH.trans triedIH
  | splitFailed _ _ _ _ triedIH othersIH nextIH => exact nextIH.trans (othersIH.trans triedIH)
  | entered _ _ _ ih =>
    -- The nonterminal that was opened is the one that is closed.
    rw [ih]
    exact List.erase_cons_head ..

/-- A nonterminal that is open on the same span, and no star, is not read; nothing is changed. -/
theorem Runs.of_opened {memory after : Memory} {index start stop : Nat}
    {trees : Option (List Tree)} (runs : reading.Runs memory (.read index start stop) trees after)
    (plain : ∀ item, reading.rules.label index ≠ .star item)
    (opened : (index, start, stop) ∈ memory.opened) : trees = none ∧ after = memory :=
  sole_refused plain opened trees after runs

end Reading

end CommandGrammar
