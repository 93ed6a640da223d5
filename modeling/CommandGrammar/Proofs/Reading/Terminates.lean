import Mathlib
import CommandGrammar.Proofs.Flatten.Language
import CommandGrammar.Proofs.Reading.Runs
import CommandGrammar.Proofs.Reading.Success

/-!
# Reading comes to an end

Every question about symbols is answered, since a question only asks about fewer symbols. Every
nonterminal is read: inside it the span gets shorter, or one more nonterminal is open on the same
span, or an item of a star is read, which is no star itself. So the room that the open nonterminals
leave bounds the depth of the calls. What a run reads is what the reader reads with its fuel.
-/

namespace CommandGrammar

namespace Reading

variable {reading : Reading} {opened : List Span} {start stop : Nat} {read : SpanReader}

/-! ## Questions -/

/-- The right answer to a query. -/
def answer (reading : Reading) : Query → Bool
  | .fits symbols start stop => reading.isFeasible symbols start stop
  | .fitsAny symbols starts stop => starts.any fun start => reading.isFeasible symbols start stop

/-- The answers are right. -/
def AreRight (reading : Reading) (answers : Answers) : Prop :=
  ∀ symbols start stop answer, answers.lookup (symbols, start, stop) = some answer →
    answer = reading.isFeasible symbols start stop

/-- One more right answer leaves the answers right. -/
theorem AreRight.cons {answers : Answers} {symbols : List Symbol}
    (right : reading.AreRight answers) :
    reading.AreRight
      (((symbols, start, stop), reading.isFeasible symbols start stop) :: answers) := by
  intro others first last answer found
  rw [List.lookup_cons] at found
  split at found
  · next same =>
    cases eq_of_beq same
    exact (Option.some.inj found).symm
  · exact right others first last answer found

/-- What some places reach is what each of them reaches. -/
theorem mem_reach_iff {symbols : List Symbol} {places : List Nat} {last : Nat} :
    last ∈ reading.reach stop symbols places ↔
      ∃ place ∈ places, last ∈ reading.reach stop symbols [place] := by
  induction symbols generalizing places with
  | nil => simp [reach]
  | cons symbol rest ih =>
    rw [reach, ih]
    simp only [reach, List.mem_eraseDups, List.mem_flatMap]
    constructor
    · rintro ⟨split, ⟨place, member, ends⟩, reached⟩
      refine ⟨place, member, ih.2 ⟨split, ?_, reached⟩⟩
      simpa using ends
    · rintro ⟨place, member, reached⟩
      obtain ⟨split, ends, later⟩ := ih.1 reached
      exact ⟨split, ⟨place, member, by simpa using ends⟩, later⟩

/-- Symbols match if the others do after one of the ends of the first. -/
theorem isFeasible_cons {symbol : Symbol} {rest : List Symbol} :
    reading.isFeasible (symbol :: rest) start stop =
      reading.answer (.fitsAny rest (reading.symbolEnds symbol start stop) stop) := by
  rw [Bool.eq_iff_iff, isFeasible, List.contains_iff_mem, reach, mem_reach_iff, answer,
    List.any_eq_true]
  simp [isFeasible]

/-- Right answers lead to a right answer, and leave right ones. -/
theorem Decides.right {query : Query} {answers later : Answers} {found : Bool}
    (decides : reading.Decides query answers found later) (right : reading.AreRight answers) :
    found = reading.answer query ∧ reading.AreRight later := by
  induction decides with
  | known found => exact ⟨right _ _ _ _ found, right⟩
  | @nil start stop =>
    have same : (start == stop) = reading.isFeasible [] start stop := by
      rw [Bool.eq_iff_iff, beq_iff_eq, isFeasible, List.contains_iff_mem, reach,
        List.mem_singleton]
      exact eq_comm
    rw [same]
    exact ⟨rfl, right.cons⟩
  | cons _ _ ih =>
    obtain ⟨rfl, after⟩ := ih right
    rw [← isFeasible_cons]
    exact ⟨rfl, after.cons⟩
  | none => exact ⟨rfl, right⟩
  | here _ ih =>
    obtain ⟨same, after⟩ := ih right
    refine ⟨?_, after⟩
    rw [answer, List.any_cons]
    exact (Bool.or_eq_true_iff.2 (.inl same.symm)).symm
  | there _ _ firstIH othersIH =>
    obtain ⟨same, middle⟩ := firstIH right
    obtain ⟨rfl, after⟩ := othersIH middle
    refine ⟨?_, after⟩
    have unfit : reading.isFeasible _ _ _ = false := same.symm
    rw [answer, answer, List.any_cons, unfit, Bool.false_or]

/-- Every question is answered, whatever answers are known. -/
theorem exists_decides (reading : Reading) (symbols : List Symbol) (start stop : Nat)
    (answers : Answers) :
    ∃ answer later, reading.Decides (.fits symbols start stop) answers answer later := by
  induction symbols generalizing start answers with
  | nil =>
    cases known : answers.lookup ([], start, stop) with
    | some answer => exact ⟨answer, answers, .known known⟩
    | none => exact ⟨_, _, .nil known⟩
  | cons symbol rest ih =>
    have any (starts : List Nat) (answers : Answers) :
        ∃ answer later, reading.Decides (.fitsAny rest starts stop) answers answer later := by
      induction starts generalizing answers with
      | nil => exact ⟨false, answers, .none⟩
      | cons first others othersIH =>
        obtain ⟨fits, middle, decides⟩ := ih first answers
        cases fits with
        | true => exact ⟨true, middle, .here decides⟩
        | false =>
          obtain ⟨answer, later, next⟩ := othersIH middle
          exact ⟨answer, later, .there decides next⟩
    cases known : answers.lookup (symbol :: rest, start, stop) with
    | some answer => exact ⟨answer, answers, .known known⟩
    | none =>
      obtain ⟨answer, later, decides⟩ := any (reading.symbolEnds symbol start stop) answers
      exact ⟨answer, _, .cons known decides⟩

/-- With right answers every question gets the right answer. -/
theorem exists_answer (symbols : List Symbol) (start stop : Nat) {answers : Answers}
    (right : reading.AreRight answers) : ∃ later, reading.AreRight later ∧
      reading.Decides (.fits symbols start stop) answers (reading.isFeasible symbols start stop)
        later := by
  obtain ⟨answer, later, decides⟩ := reading.exists_decides symbols start stop answers
  obtain ⟨rfl, after⟩ := decides.right right
  exact ⟨later, after, decides⟩

/-! ## Runs -/

/-- A task, with some nonterminals open, comes to an end with what it reads, and leaves right answers
if the ones before it were. -/
def Performs (reading : Reading) (opened : List Span) (task : Task)
    (trees : Option (List Tree)) : Prop :=
  ∀ answers, reading.AreRight answers → ∃ later, reading.AreRight later ∧
    reading.Runs ⟨opened, answers⟩ task trees ⟨opened, later⟩

/-- Runs read nonterminals between two places as a reader does, given which nonterminals are
open. -/
def Realizes (reading : Reading) (opened : List Span) (read : SpanReader)
    (start stop : Nat) : Prop :=
  ∀ index first last, start ≤ first → first ≤ last → last ≤ stop →
    reading.Performs opened (.read index first last) (read index first last)

/-- They read nonterminals so that are no stars. -/
def RealizesPlain (reading : Reading) (opened : List Span) (read : SpanReader) (start stop : Nat) :
    Prop :=
  ∀ index first last, (∀ item, reading.rules.label index ≠ .star item) → start ≤ first →
    first ≤ last → last ≤ stop →
      reading.Performs opened (.read index first last) (read index first last)

/-- The ends of symbols lie between the places asked for. -/
def IsBounded (reading : Reading) : Prop :=
  ∀ symbol start stop, ∀ split ∈ reading.symbolEnds symbol start stop, start ≤ split ∧ split ≤ stop

/-- Splits of a nonterminal and symbols are tried by runs as by the reader. -/
theorem performs_divide {index : Nat} {rest : List Symbol} {splits : List Nat}
    (reads : ∀ split ∈ splits,
      reading.Performs opened (.read index start split) (read index start split))
    (follows : ∀ split ∈ splits, reading.Performs opened (.follow rest split stop)
      (reading.readSymbols read rest split stop)) :
    reading.Performs opened (.divide index rest splits start stop) (splits.findSome? fun split =>
      if reading.isFeasible rest split stop then
        match read index start split with
        | none => none
        | some trees => (reading.readSymbols read rest split stop).map (trees ++ ·)
      else none) := by
  induction splits with
  | nil => exact fun answers right => ⟨answers, right, .undivided⟩
  | cons split splits ih =>
    intro answers right
    obtain ⟨own, others⟩ := List.forall_mem_cons.1 reads
    obtain ⟨followed, followOthers⟩ := List.forall_mem_cons.1 follows
    have next := ih others followOthers
    obtain ⟨asked, right, decides⟩ := exists_answer rest split stop right
    rw [List.findSome?_cons]
    cases fits : reading.isFeasible rest split stop with
    | false =>
      rw [fits] at decides
      obtain ⟨later, kept, next⟩ := next asked right
      exact ⟨later, kept, .splitSkipped decides next⟩
    | true =>
      rw [fits] at decides
      obtain ⟨between, right, tried⟩ := own asked right
      rw [if_pos rfl]
      cases found : read index start split with
      | none =>
        rw [found] at tried
        obtain ⟨later, kept, next⟩ := next between right
        exact ⟨later, kept, .splitRefused decides tried next⟩
      | some trees =>
        rw [found] at tried
        obtain ⟨middle, right, follows⟩ := followed between right
        simp only
        cases rested : reading.readSymbols read rest split stop with
        | none =>
          rw [rested] at follows
          obtain ⟨later, kept, next⟩ := next middle right
          exact ⟨later, kept, .splitFailed decides tried follows next⟩
        | some more =>
          rw [rested] at follows
          exact ⟨middle, right, .splitTaken decides tried follows⟩

/-- A terminal and the symbols after it are read by runs as by the reader. -/
theorem performs_terminal {symbol : Symbol} {rest : List Symbol}
    (terminal : ∀ index, symbol ≠ .nonterminal index)
    (follows : start < stop → reading.Performs opened (.follow rest (start + 1) stop)
      (reading.readSymbols read rest (start + 1) stop)) :
    reading.Performs opened (.follow (symbol :: rest) start stop)
      (reading.readSymbols read (symbol :: rest) start stop) := by
  intro answers right
  rw [readSymbols_terminal _ _ terminal]
  by_cases below : start < stop
  · rw [if_pos below]
    cases found : reading.leaf? symbol start with
    | none => exact ⟨answers, right, .mismatch terminal fun _ => found⟩
    | some tree =>
      obtain ⟨later, kept, next⟩ := follows below answers right
      exact ⟨later, kept, .leaf terminal below found next⟩
  · rw [if_neg below]
    exact ⟨answers, right, .mismatch terminal fun less => absurd less below⟩

/-- Symbols are read by runs as by the reader. -/
theorem performs_follow (bounded : reading.IsBounded)
    (reads : reading.Realizes opened read start stop)
    (symbols : List Symbol) {first last : Nat} (after : start ≤ first) (before : last ≤ stop) :
    reading.Performs opened (.follow symbols first last)
      (reading.readSymbols read symbols first last) := by
  induction symbols generalizing first with
  | nil => exact fun answers right => ⟨answers, right, .ended⟩
  | cons symbol rest ih =>
    cases symbol with
    | nonterminal index =>
      have between := bounded (.nonterminal index) first last
      have tried : ∀ split ∈ reading.symbolEnds (.nonterminal index) first last,
          reading.Performs opened (.read index first split) (read index first split) :=
        fun split member => reads index first split after (between split member).1
          (Nat.le_trans (between split member).2 before)
      have followed : ∀ split ∈ reading.symbolEnds (.nonterminal index) first last,
          reading.Performs opened (.follow rest split last)
            (reading.readSymbols read rest split last) :=
        fun split member => ih (Nat.le_trans after (between split member).1)
      intro answers right
      obtain ⟨later, kept, runs⟩ := performs_divide tried followed answers right
      exact ⟨later, kept, .nonterminal runs⟩
    | literal | value => exact performs_terminal nofun fun _ => ih (Nat.le_succ_of_le after)

/-- The first alternative that works out is found by runs as by the reader. -/
theorem performs_choose (bounded : reading.IsBounded)
    (reads : reading.Realizes opened read start stop)
    (alternatives : List (List Symbol)) :
    reading.Performs opened (.choose alternatives start stop) (alternatives.findSome? fun symbols =>
      if reading.isFeasible symbols start stop then reading.readSymbols read symbols start stop
      else none) := by
  induction alternatives with
  | nil => exact fun answers right => ⟨answers, right, .exhausted⟩
  | cons symbols others ih =>
    intro answers right
    obtain ⟨asked, right, decides⟩ := exists_answer symbols start stop right
    rw [List.findSome?_cons]
    cases fits : reading.isFeasible symbols start stop with
    | false =>
      rw [fits] at decides
      obtain ⟨later, kept, next⟩ := ih asked right
      exact ⟨later, kept, .skipped decides next⟩
    | true =>
      rw [fits] at decides
      obtain ⟨middle, right, tried⟩ :=
        performs_follow bounded reads symbols (Nat.le_refl _) (Nat.le_refl _) asked right
      rw [if_pos rfl]
      cases found : reading.readSymbols read symbols start stop with
      | none =>
        rw [found] at tried
        obtain ⟨later, kept, next⟩ := ih middle right
        exact ⟨later, kept, .failed decides tried next⟩
      | some trees =>
        rw [found] at tried
        exact ⟨middle, right, .chosen decides tried⟩

/-! ## Stars -/

/-- The ends of an item lie after its start, and no later than the last place. -/
theorem between_of_mem_itemEnds (bounded : reading.IsBounded) {item : Symbol} {split : Nat}
    (member : split ∈ reading.itemEnds item start stop) : start < split ∧ split ≤ stop := by
  obtain ⟨ends, longer⟩ := List.mem_filter.1 member
  exact ⟨of_decide_eq_true longer, (bounded item start stop split ends).2⟩

/-- An item is read by runs as by the reader, if it is no star. -/
theorem performs_item (reads : reading.RealizesPlain opened read start stop) {item : Symbol}
    (plain : ∀ index, item = .nonterminal index → ∀ inner, reading.rules.label index ≠ .star inner)
    {first last : Nat} (after : start ≤ first) (ordered : first ≤ last) (before : last ≤ stop) :
    reading.Performs opened (.item item first last) (reading.readItem read item first last) := by
  intro answers right
  cases item with
  | nonterminal index =>
    obtain ⟨later, kept, runs⟩ :=
      reads index first last (plain index rfl) after ordered before answers right
    exact ⟨later, kept, .itemRead runs⟩
  | literal | value => exact ⟨answers, right, .itemLeaf nofun⟩

/-- Splits of an item and further items are tried by runs as by the reader. -/
theorem performs_turn {item : Symbol} {starts splits : List Nat}
    {further : Nat → Option (List Tree)}
    (reads : ∀ split ∈ splits, reading.Performs opened (.item item start split)
      (reading.readItem read item start split))
    (items : ∀ split ∈ splits,
      reading.Performs opened (.items item starts split stop) (further split)) :
    reading.Performs opened (.turn item starts splits start stop)
      (match splits.findSome? fun split =>
          if starts.contains split then
            (reading.readItem read item start split).map fun trees => (split, trees)
          else none with
        | none => none
        | some (split, trees) => (further split).map (trees ++ ·)) := by
  induction splits with
  | nil => exact fun answers right => ⟨answers, right, .turnless⟩
  | cons split splits ih =>
    intro answers right
    obtain ⟨own, others⟩ := List.forall_mem_cons.1 reads
    obtain ⟨onward, otherItems⟩ := List.forall_mem_cons.1 items
    have next := ih others otherItems
    rw [List.findSome?_cons]
    by_cases leads : split ∈ starts
    · obtain ⟨middle, right, tried⟩ := own answers right
      rw [if_pos (List.contains_iff_mem.2 leads)]
      cases found : reading.readItem read item start split with
      | none =>
        rw [found] at tried
        obtain ⟨later, kept, next⟩ := next middle right
        exact ⟨later, kept, .turnFailed leads tried next⟩
      | some trees =>
        rw [found] at tried
        obtain ⟨later, kept, more⟩ := onward middle right
        exact ⟨later, kept, .turnTaken leads tried more⟩
    · obtain ⟨later, kept, next⟩ := next answers right
      rw [if_neg (mt List.contains_iff_mem.1 leads)]
      exact ⟨later, kept, .turnSkipped leads next⟩

/-- Items are read by runs as by the reader. Each begins where the one before it ended, which was
after its start, so that as many as there are places up to the end are enough. -/
theorem performs_items (bounded : reading.IsBounded)
    (reads : reading.RealizesPlain opened read start stop)
    {item : Symbol}
    (plain : ∀ index, item = .nonterminal index → ∀ inner, reading.rules.label index ≠ .star inner)
    {starts : List Nat} {fuel place last : Nat} (after : start ≤ place) (ordered : place ≤ last)
    (before : last ≤ stop) (enough : last - place ≤ fuel) :
    reading.Performs opened (.items item starts place last)
      (reading.readItems read item starts last fuel place) := by
  induction fuel generalizing place with
  | zero =>
    obtain rfl : place = last := by omega
    rw [readItems, if_pos rfl]
    exact fun answers right => ⟨answers, right, .finished (Nat.le_refl _)⟩
  | succ fuel ih =>
    rw [readItems]
    by_cases reached : place = last
    · rw [if_pos reached]
      exact fun answers right => ⟨answers, right, .finished (Nat.le_of_eq reached.symm)⟩
    · have tried : ∀ split ∈ reading.itemEnds item place last,
          reading.Performs opened (.item item place split)
            (reading.readItem read item place split) := by
        intro split member
        obtain ⟨longer, within⟩ := between_of_mem_itemEnds bounded member
        exact performs_item reads plain after (Nat.le_of_lt longer) (Nat.le_trans within before)
      have onward : ∀ split ∈ reading.itemEnds item place last,
          reading.Performs opened (.items item starts split last)
            (reading.readItems read item starts last fuel split) := by
        intro split member
        obtain ⟨longer, within⟩ := between_of_mem_itemEnds bounded member
        exact ih (by omega) within (by omega)
      rw [if_neg reached]
      intro answers right
      obtain ⟨later, kept, runs⟩ := performs_turn tried onward answers right
      exact ⟨later, kept, .unfinished (Nat.lt_of_le_of_ne ordered reached) runs⟩

/-- With the items of stars read in a loop, all nonterminals are read by runs as by the reader. -/
theorem realizes_readEither (bounded : reading.IsBounded)
    (items : ∀ index other, reading.rules.label index = .star (.nonterminal other) →
      ∀ inner, reading.rules.label other ≠ .star inner)
    (reads : reading.RealizesPlain opened read start stop) :
    reading.Realizes opened (reading.readEither read) start stop := by
  intro index first last after ordered before
  have atPlain (plain : ∀ item, reading.rules.label index ≠ .star item) :=
    reads index first last plain after ordered before
  rw [readEither]
  split
  · next item star =>
    intro answers right
    rw [readStar]
    by_cases leads : first ∈ reading.itemStarts item last (last - first)
    · have plain : ∀ other, item = .nonterminal other →
          ∀ inner, reading.rules.label other ≠ .star inner :=
        fun other same => items index other (same ▸ star)
      obtain ⟨later, kept, runs⟩ :=
        performs_items bounded reads plain after ordered before (Nat.le_refl _) answers right
      simp only [List.contains_iff_mem.2 leads, if_true]
      exact ⟨later, kept, .star star leads runs⟩
    · simp only [Bool.eq_false_iff.2 (mt List.contains_iff_mem.1 leads), Bool.false_eq_true,
        if_false]
      exact ⟨answers, right, .starless star leads⟩
  · next id named => exact atPlain (by simp [named])
  · next nested => exact atPlain (by simp [nested])

/-! ## Depth -/

/-- The alternatives of a nonterminal that is not open are tried by a run while it is. -/
theorem performs_entered (bounded : reading.IsBounded) {index : Nat}
    (plain : ∀ item, reading.rules.label index ≠ .star item)
    (free : (index, start, stop) ∉ opened)
    (reads : reading.Realizes ((index, start, stop) :: opened) read start stop) :
    reading.Performs opened (.read index start stop)
      (((reading.rules.alternatives index).findSome? fun symbols =>
        if reading.isFeasible symbols start stop then reading.readSymbols read symbols start stop
        else none).map (wrap (reading.rules.label index))) := by
  intro answers right
  obtain ⟨later, kept, runs⟩ :=
    performs_choose bounded reads (reading.rules.alternatives index) answers right
  have entered := @Runs.entered reading ⟨opened, answers⟩ _ _ _ _ _ plain free runs
  rw [List.erase_cons_head] at entered
  exact ⟨later, kept, entered⟩

/-- What is open is read neither by a run nor by the reader. -/
theorem performs_refused {index : Nat} (plain : ∀ item, reading.rules.label index ≠ .star item)
    (refused : (index, start, stop) ∈ opened) (fuel : Nat) :
    reading.Performs opened (.read index start stop)
      (reading.readAlternatives fuel opened index start stop) := by
  have nothing : reading.readAlternatives fuel opened index start stop = none := by
    cases fuel with
    | zero => rfl
    | succ fuel => rw [readAlternatives, if_pos (List.contains_iff_mem.2 refused)]
  rw [nothing]
  exact fun answers right => ⟨answers, right, .refused plain refused⟩

/-- Neither is a nonterminal that the rules do not have. -/
theorem performs_unknown {index : Nat} (unknown : reading.rules.size ≤ index)
    (free : (index, start, stop) ∉ opened) (fuel : Nat) :
    reading.Performs opened (.read index start stop)
      (reading.readAlternatives fuel opened index start stop) := by
  have missing : reading.rules.nonterminals[index]? = none := Array.getElem?_eq_none unknown
  have empty : reading.rules.alternatives index = [] := by rw [Rules.alternatives, missing]
  have plain : ∀ item, reading.rules.label index ≠ .star item := by simp [Rules.label, missing]
  have nothing : reading.readAlternatives fuel opened index start stop = none := by
    cases fuel with
    | zero => rfl
    | succ fuel =>
      rw [readAlternatives, if_neg (mt List.contains_iff_mem.1 free), empty]
      rfl
  rw [nothing]
  intro answers right
  have exhausted : reading.Runs ⟨(index, start, stop) :: opened, answers⟩
      (.choose (reading.rules.alternatives index) start stop) none
      ⟨(index, start, stop) :: opened, answers⟩ := empty ▸ .exhausted
  have entered := @Runs.entered reading ⟨opened, answers⟩ _ _ _ _ _ plain free exhausted
  rw [List.erase_cons_head] at entered
  exact ⟨answers, right, entered⟩

/-- Nonterminals that are no stars are read by runs as by the reader, if its fuel covers the room
that the open nonterminals leave. -/
theorem realizes_readAlternatives (bounded : reading.IsBounded)
    (items : ∀ index other, reading.rules.label index = .star (.nonterminal other) →
      ∀ inner, reading.rules.label other ≠ .star inner)
    {fuel : Nat} (around : Around reading.rules.size opened start stop)
    (enough : room reading.rules.size opened start stop ≤ fuel) :
    reading.RealizesPlain opened (reading.readAlternatives fuel opened) start stop := by
  induction fuel using Nat.strongRecOn generalizing opened start stop with
  | ind fuel ih =>
    intro index first last plain after ordered before
    by_cases refused : (index, first, last) ∈ opened
    · exact performs_refused plain refused fuel
    · by_cases known : index < reading.rules.size
      · have here := around.narrow after before
        have less := here.room_lt refused known
        have bound := room_le reading.rules.size opened after ordered before
        obtain ⟨lower, rfl⟩ : ∃ lower, fuel = lower + 1 := ⟨fuel - 1, by omega⟩
        have inner := ih lower (Nat.lt_succ_self lower) (here.enter refused known) (by omega)
        rw [readAlternatives, if_neg (mt List.contains_iff_mem.1 refused)]
        exact performs_entered bounded plain refused (realizes_readEither bounded items inner)
      · exact performs_unknown (Nat.le_of_not_lt known) refused fuel

end Reading

namespace Table

open Reading

variable {table : Table} {tokens : List String}

/-- The ends that a chart finds lie between the places asked for. -/
theorem isBounded_reading (marks : table.nullable = table.rules.nullable) (tokens : List String) :
    (table.reading tokens).IsBounded := by
  intro symbol start stop split member
  obtain ⟨spans, within⟩ := spans_of_mem_symbolEnds marks member
  exact ⟨spans.le, within⟩

/-- All that parsing tokens does comes to an end. -/
structure Halts (table : Table) (tokens : List String) : Prop where
  /-- The rounds that mark the nullable nonterminals. -/
  marks : Settles table.rules.markRound (Array.replicate table.rules.size false) table.nullable
  /-- The filling of the chart. -/
  fills : table.Fills tokens (table.sets tokens)
  /-- Every question about symbols, whatever answers are known. -/
  decides : ∀ symbols start stop answers, ∃ answer later,
    (table.reading tokens).Decides (.fits symbols start stop) answers answer later
  /-- The reading of every nonterminal inside the open ones, in one way. -/
  reads : ∀ (memory : Memory) (index start stop : Nat), start ≤ stop →
    Around table.rules.size memory.opened start stop →
    (table.reading tokens).AreRight memory.answers → ∃! outcome : Option (List Tree) × Memory,
      (table.reading tokens).Runs memory (.read index start stop) outcome.1 outcome.2
  /-- In particular that of all tokens, before its fuel is used up. -/
  whole : ∃ answers, (table.reading tokens).Runs ⟨[], []⟩
    (.read table.rules.start 0 tokens.length)
    ((table.reading tokens).whole table.rules.start) ⟨[], answers⟩
  /-- A nonterminal inside itself, on the same span, is done at once, if it is no star. -/
  refuses : ∀ (memory after : Memory) (index start stop : Nat) (trees : Option (List Tree)),
    (∀ item, table.rules.label index ≠ .star item) → (index, start, stop) ∈ memory.opened →
    (table.reading tokens).Runs memory (.read index start stop) trees after →
      trees = none ∧ after = memory
  /-- Whatever is done, the same nonterminals are open after it as before. -/
  restores : ∀ (memory after : Memory) (task : Task) (trees : Option (List Tree)),
    (table.reading tokens).Runs memory task trees after → after.opened = memory.opened
  /-- Every turn of a star ends after its start. -/
  advances : ∀ (item : Symbol) (start stop : Nat),
    ∀ split ∈ (table.reading tokens).itemEnds item start stop, start < split ∧ split ≤ stop

end Table

namespace Grammar

open Reading

variable {grammar : Grammar} {tokens : List String}

/-- Runs read all nonterminals as the reader does, if its fuel covers the room that is left. -/
theorem realizes_table (closed : grammar.isClosed = true) {opened : List Span}
    {start stop fuel : Nat}
    (around : Around (Table.ofGrammar grammar).rules.size opened start stop)
    (enough : room (Table.ofGrammar grammar).rules.size opened start stop ≤ fuel) :
    let reading := (Table.ofGrammar grammar).reading tokens
    reading.Realizes opened (reading.readEither (reading.readAlternatives fuel opened))
      start stop := by
  have bounded := Table.isBounded_reading (Table.marks_ofGrammar grammar) tokens
  have shaped : (Table.ofGrammar grammar).rules.StarShaped := starShaped closed
  have items : ∀ index other, (Table.ofGrammar grammar).rules.label index =
      .star (.nonterminal other) → ∀ inner, (Table.ofGrammar grammar).rules.label other ≠
        .star inner := fun index other star inner => shaped.item star
  exact realizes_readEither bounded items (realizes_readAlternatives bounded items around enough)

/-- With a closed grammar, whatever is done to parse tokens comes to an end. -/
theorem parsing_halts (closed : grammar.isClosed = true) (tokens : List String) :
    (Table.ofGrammar grammar).Halts tokens := by
  constructor
  case marks => exact Rules.settles_nullable (Rules.ofGrammar grammar)
  case fills => exact Table.fills_sets (Table.ofGrammar grammar) tokens
  case decides => exact exists_decides ((Table.ofGrammar grammar).reading tokens)
  case reads =>
    intro memory index start stop ordered around right
    obtain ⟨later, _, runs⟩ := realizes_table closed around (Nat.le_refl _) index start stop
      (Nat.le_refl _) ordered (Nat.le_refl _) memory.answers right
    refine ⟨(_, _), runs, fun other runs' => ?_⟩
    obtain ⟨trees, after⟩ := runs.unique runs'
    exact Prod.ext trees after
  case whole =>
    have around : Around (Table.ofGrammar grammar).rules.size [] 0 tokens.length :=
      ⟨List.nodup_nil, nofun, nofun⟩
    obtain ⟨later, _, runs⟩ := realizes_table closed around
      (room_le_depth (Table.ofGrammar grammar) tokens) (Table.ofGrammar grammar).rules.start 0
      tokens.length (Nat.le_refl _) (Nat.zero_le _) (Nat.le_refl _) [] nofun
    exact ⟨later, runs⟩
  case refuses =>
    intro memory after index start stop trees plain opened runs
    exact runs.of_opened plain opened
  case restores =>
    intro memory after task trees runs
    exact runs.opened
  case advances =>
    intro item start stop split member
    have bounded := Table.isBounded_reading (Table.marks_ofGrammar grammar) tokens
    exact between_of_mem_itemEnds bounded member

/-- A grammar in which nodes contain themselves and each other in all ways: directly, with something
before or after, as items, and as options that may both be absent. -/
def knotted : Grammar where
  productions := [
    ⟨0, "cycle", .alt [.rule 0, .value]⟩,
    ⟨1, "items", .repetition (.rule 1) 0 none⟩,
    ⟨2, "left", .optional (.seq [.rule 2, .rule 3])⟩,
    ⟨3, "right", .optional (.seq [.rule 3, .rule 2, .rule 1, .rule 0])⟩]
  start := 3

/-- Parsing with the knotted grammar comes to an end. -/
theorem knotted_halts : knotted.isClosed = true ∧ (Table.ofGrammar knotted).Halts ["a", "b", "c"] :=
  ⟨by decide, parsing_halts (by decide) ["a", "b", "c"]⟩

end Grammar

end CommandGrammar
