import Mathlib
import CommandGrammar.Proofs.Chart.Ends

/-!
# Filling sets in place

The sets of a chart may be filled while they are walked through: each item in its turn adds
what follows from it at the end of the set. An item here says which alternative it is of and
how many symbols of it have been passed. A nonterminal that is done where it began then looks
into the set that is being filled and sees only the items that are there already. Those that
come later do without it, since they pass over nullable nonterminals by themselves.

So the walk ends, and the sets hold exactly the items whose nonterminal is awaited where they
began and whose symbols before the dot derive the tokens since then.
-/

namespace CommandGrammar

/-- An alternative of a nonterminal with a dot in it. -/
structure Dotted where
  /-- The nonterminal being derived. -/
  head : Nat
  /-- Which of its alternatives. -/
  number : Nat
  /-- The place where its derivation began. -/
  origin : Nat
  /-- Number of symbols before the dot. -/
  dot : Nat
deriving DecidableEq

namespace Dotted

/-- The alternative. -/
def alternative (rules : Rules) (dotted : Dotted) : List Symbol :=
  (rules.alternatives dotted.head)[dotted.number]?.getD []

/-- The symbols before the dot. -/
def passed (rules : Rules) (dotted : Dotted) : List Symbol :=
  (dotted.alternative rules).take dotted.dot

/-- The symbols after the dot. -/
def rest (rules : Rules) (dotted : Dotted) : List Symbol :=
  (dotted.alternative rules).drop dotted.dot

/-- The item with the symbols to come alone. -/
def item (rules : Rules) (dotted : Dotted) : Item :=
  ⟨dotted.head, dotted.origin, dotted.rest rules⟩

/-- The dot moved over a number of symbols. -/
def advance (dotted : Dotted) (count : Nat) : Dotted := { dotted with dot := dotted.dot + count }

/-- The item past its next symbol, if that is the nonterminal. -/
def over? (rules : Rules) (index : Nat) (dotted : Dotted) : Option Dotted :=
  match dotted.rest rules with
  | .nonterminal next :: _ => if next = index then some (dotted.advance 1) else none
  | _ => none

/-- The item past its next symbol, if that matches the token. -/
def scan? (rules : Rules) (token : String) (dotted : Dotted) : Option Dotted :=
  match dotted.rest rules with
  | [] => none
  | symbol :: _ => (symbol.matches? token).map fun _ => dotted.advance 1

end Dotted

namespace Table

/-- The alternatives of a nonterminal that begins at a place. -/
def begins (table : Table) (place index : Nat) : List Dotted :=
  (List.range (table.rules.alternatives index).length).map fun number => ⟨index, number, place, 0⟩

/-- What an item adds to the set of a place, given the sets so far, the unfinished one among
them. -/
def additions (table : Table) (sets : Array (List Dotted)) (place : Nat) (dotted : Dotted) :
    List Dotted :=
  match dotted.rest table.rules with
  | [] => (sets.getD dotted.origin []).filterMap (Dotted.over? table.rules dotted.head)
  | .nonterminal index :: _ =>
    table.begins place index ++
      if table.nullable.getD index false then [dotted.advance 1] else []
  | .literal _ :: _ | .value :: _ => []

/-- A set is walked through to its end; each item adds to the end what is not there yet. -/
inductive Walks (table : Table) (earlier : Array (List Dotted)) :
    List Dotted → List Dotted → List Dotted → Prop where
  /-- No item is left. -/
  | finished (walked : List Dotted) : Walks table earlier walked [] walked
  /-- The next item is looked at, with the set as far as it is filled. -/
  | item {walked pending set : List Dotted} {next : Dotted}
      (rest : Walks table earlier (walked ++ [next])
        (pending ++ newIn (walked ++ next :: pending)
          (table.additions (earlier.push (walked ++ next :: pending)) earlier.size next)) set) :
      Walks table earlier walked (next :: pending) set

/-- The sets of all places among some tokens, filled one after the other. -/
inductive FillsInPlace (table : Table) : List String → Array (List Dotted) → Prop where
  /-- The first set begins with the start. -/
  | first {set : List Dotted}
      (walks : table.Walks #[] [] (table.begins 0 table.rules.start).eraseDups set) :
      FillsInPlace table [] #[set]
  /-- The next one begins with what is past the next token. -/
  | token {before : List String} {token : String} {sets : Array (List Dotted)} {set : List Dotted}
      (filled : FillsInPlace table before sets)
      (walks : table.Walks sets []
        ((sets.back?.getD []).filterMap (Dotted.scan? table.rules token)).eraseDups set) :
      FillsInPlace table (before ++ [token]) (sets.push set)

end Table

section

variable {rules : Rules} {dotted next : Dotted}

/-- The symbols before and after the dot make up the alternative. -/
theorem Dotted.passed_append_rest : dotted.passed rules ++ dotted.rest rules =
    dotted.alternative rules := List.take_append_drop _ _

/-- Moving the dot over symbols leaves those after them. -/
theorem Dotted.rest_advance {symbols others : List Symbol}
    (shape : dotted.rest rules = symbols ++ others) :
    (dotted.advance symbols.length).rest rules = others := by
  have dropped : (dotted.rest rules).drop symbols.length = others := by
    rw [shape, List.drop_left]
  rwa [Dotted.rest, List.drop_drop] at dropped

/-- Moving the dot over symbols adds them to those before it. -/
theorem Dotted.passed_advance {symbols others : List Symbol}
    (shape : dotted.rest rules = symbols ++ others) :
    (dotted.advance symbols.length).passed rules = dotted.passed rules ++ symbols := by
  have taken : (dotted.rest rules).take symbols.length = symbols := by
    rw [shape, List.take_left]
  have divided := List.take_add (l := dotted.alternative rules) (i := dotted.dot)
    (j := symbols.length)
  rw [Dotted.passed, Dotted.passed]
  exact divided.trans (congrArg _ taken)

/-- Moving the dot twice is moving it once, as far. -/
theorem Dotted.advance_advance (first later : Nat) :
    (dotted.advance first).advance later = dotted.advance (first + later) := by
  simp [Dotted.advance, Nat.add_assoc]

/-- The next symbol passed over was the nonterminal. -/
theorem Dotted.over?_eq_some_iff {index : Nat} :
    dotted.over? rules index = some next ↔
      (∃ others, dotted.rest rules = .nonterminal index :: others) ∧ next = dotted.advance 1 := by
  unfold Dotted.over?
  split
  · next other others shape =>
    rw [shape]
    by_cases same : other = index
    · simp [same, eq_comm]
    · simp [same]
  · next shape =>
    simp only [reduceCtorEq, false_iff, not_and, forall_exists_index]
    intro others wanted
    exact absurd wanted (shape index others)

/-- The next symbol scanned matched the token. -/
theorem Dotted.scan?_eq_some_iff {token : String} :
    dotted.scan? rules token = some next ↔
      ∃ symbol others kind, dotted.rest rules = symbol :: others ∧
        symbol.matches? token = some kind ∧ next = dotted.advance 1 := by
  unfold Dotted.scan?
  split
  · next none_left => simp [none_left]
  · next symbol others shape =>
    simp only [shape, List.cons.injEq, Option.map_eq_some_iff]
    constructor
    · rintro ⟨kind, matched, rfl⟩
      exact ⟨symbol, others, kind, ⟨rfl, rfl⟩, matched, rfl⟩
    · rintro ⟨_, _, kind, ⟨rfl, rfl⟩, matched, rfl⟩
      exact ⟨kind, matched, rfl⟩

end

namespace Table

variable {table : Table} {tokens : List String} {dotted : Dotted}

/-- An item begins a nonterminal at a place exactly if it has one of the alternatives, with the dot
before it. -/
theorem mem_begins {place index : Nat} :
    dotted ∈ table.begins place index ↔
      dotted.number < (table.rules.alternatives index).length ∧
        dotted = ⟨index, dotted.number, place, 0⟩ := by
  simp only [begins, List.mem_map, List.mem_range]
  constructor
  · rintro ⟨number, below, rfl⟩
    exact ⟨below, rfl⟩
  · rintro ⟨below, same⟩
    exact ⟨dotted.number, below, same.symm⟩

/-- What an item adds to a set. -/
theorem mem_additions {sets : Array (List Dotted)} {place : Nat} {next : Dotted} :
    next ∈ table.additions sets place dotted ↔
      (dotted.rest table.rules = [] ∧ ∃ parent ∈ sets.getD dotted.origin [],
        parent.over? table.rules dotted.head = some next) ∨
      ∃ index others, dotted.rest table.rules = .nonterminal index :: others ∧
        (next ∈ table.begins place index ∨
          table.nullable.getD index false = true ∧ next = dotted.advance 1) := by
  unfold additions
  split
  · next finished => simp [finished]
  · next index others wanted =>
    rw [wanted, List.mem_append]
    constructor
    · rintro (begun | passed)
      · exact .inr ⟨index, others, rfl, .inl begun⟩
      · split at passed
        · next nullable =>
          exact .inr ⟨index, others, rfl, .inr ⟨nullable, List.mem_singleton.1 passed⟩⟩
        · cases passed
    · rintro (⟨impossible, _⟩ | ⟨_, _, same, added⟩)
      · cases impossible
      · cases same
        rcases added with begun | ⟨nullable, rfl⟩
        · exact .inl begun
        · rw [if_pos nullable]
          exact .inr (List.mem_singleton_self _)
  · next wanted => simp [wanted]
  · next wanted => simp [wanted]

/-- The set that is being filled stands at its place, after the earlier ones. -/
theorem getD_push {sets : Array (List Dotted)} {set : List Dotted} {place : Nat} :
    (sets.push set).getD place [] =
      if place = sets.size then set else sets.getD place [] := by
  rw [Array.getD_eq_getD_getElem?, Array.getElem?_push, Array.getD_eq_getD_getElem?]
  split <;> rfl

/-! ## What the items mean -/

/-- An item belongs at a place: its nonterminal is awaited where it began, and the symbols before
its dot derive the tokens since then. -/
structure Belongs (table : Table) (tokens : List String) (place : Nat) (dotted : Dotted) :
    Prop where
  /-- There is such an alternative. -/
  known : dotted.number < (table.rules.alternatives dotted.head).length
  /-- The dot is in it. -/
  within : dotted.dot ≤ (dotted.alternative table.rules).length
  /-- The nonterminal is awaited where the item began. -/
  awaited : table.rules.Awaited tokens dotted.head dotted.origin
  /-- The symbols before the dot derive the tokens since then. -/
  spans : table.rules.Spans tokens (dotted.passed table.rules) dotted.origin place

/-- The alternative of an item is one of its nonterminal. -/
theorem alternative_mem (known : dotted.number < (table.rules.alternatives dotted.head).length) :
    dotted.alternative table.rules ∈ table.rules.alternatives dotted.head := by
  rw [Dotted.alternative, List.getElem?_eq_getElem known, Option.getD_some]
  exact List.getElem_mem known

/-- An item that begins an awaited nonterminal belongs at the place. -/
theorem Belongs.begin {place index : Nat} (awaited : table.rules.Awaited tokens index place)
    (member : dotted ∈ table.begins place index) : table.Belongs tokens place dotted := by
  obtain ⟨below, same⟩ := mem_begins.1 member
  rw [same]
  exact ⟨below, Nat.zero_le _, awaited, .nil place⟩

/-- An item past its next symbol belongs where that ends. -/
theorem Belongs.next {place later : Nat} {symbol : Symbol} {others : List Symbol}
    (belongs : table.Belongs tokens place dotted)
    (shape : dotted.rest table.rules = symbol :: others)
    (spans : table.rules.Spans tokens [symbol] place later) :
    table.Belongs tokens later (dotted.advance 1) := by
  have inside : dotted.dot < (dotted.alternative table.rules).length := by
    by_contra beyond
    rw [Dotted.rest, List.drop_eq_nil_of_le (Nat.le_of_not_lt beyond)] at shape
    cases shape
  refine ⟨belongs.known, inside, belongs.awaited, ?_⟩
  have passed := @Dotted.passed_advance table.rules dotted [symbol] others shape
  rw [List.length_singleton] at passed
  rw [passed]
  exact belongs.spans.append spans

/-- What an item that belongs at the place adds belongs there. -/
theorem Belongs.additions (marks : table.nullable = table.rules.nullable)
    {sets : Array (List Dotted)} {place : Nat} {next : Dotted}
    (sound : ∀ earlier, ∀ other ∈ sets.getD earlier [], table.Belongs tokens earlier other)
    (belongs : table.Belongs tokens place dotted)
    (added : next ∈ table.additions sets place dotted) : table.Belongs tokens place next := by
  rcases mem_additions.1 added with
    ⟨finished, parent, waiting, passed⟩ | ⟨index, others, wanted, begun | ⟨nullable, rfl⟩⟩
  · obtain ⟨⟨others, shape⟩, rfl⟩ := Dotted.over?_eq_some_iff.1 passed
    have whole := @Dotted.passed_append_rest table.rules dotted
    rw [finished, List.append_nil] at whole
    exact (sound _ parent waiting).next shape (Rules.spans_nonterminal_iff.2
      ⟨_, alternative_mem belongs.known, whole ▸ belongs.spans⟩)
  · have member : dotted.passed table.rules ++ .nonterminal index :: others ∈
        table.rules.alternatives dotted.head := by
      rw [← wanted, Dotted.passed_append_rest]
      exact alternative_mem belongs.known
    exact Belongs.begin (.inside belongs.awaited member belongs.spans) begun
  · rw [marks] at nullable
    exact belongs.next wanted ((Rules.nullable_iff.1 nullable).spans_nil place)

/-- After an item was looked at the set holds what it held before and what is new. -/
theorem mem_after_item {α : Type} {walked pending fresh : List α} {next other : α} :
    other ∈ walked ++ [next] ++ (pending ++ fresh) ↔
      other ∈ walked ++ next :: pending ∨ other ∈ fresh := by
  simp only [List.mem_append, List.mem_cons, List.not_mem_nil, or_false]
  tauto

/-! ## Walks -/

section

variable {earlier : Array (List Dotted)} {walked pending set : List Dotted}

/-- What belongs at the earlier places and at this one makes up sets of what belongs. -/
theorem belongs_of_push
    (sound : ∀ place, ∀ other ∈ earlier.getD place [], table.Belongs tokens place other)
    (begun : ∀ other ∈ set, table.Belongs tokens earlier.size other) :
    ∀ place, ∀ other ∈ (earlier.push set).getD place [], table.Belongs tokens place other := by
  intro place other member
  rw [getD_push] at member
  split at member
  · next here => exact here ▸ begun other member
  · exact sound place other member

/-- What an item adds to the set as far as it is filled belongs there. -/
theorem belongs_fresh (marks : table.nullable = table.rules.nullable)
    (sound : ∀ place, ∀ other ∈ earlier.getD place [], table.Belongs tokens place other)
    (begun : ∀ other ∈ walked ++ dotted :: pending, table.Belongs tokens earlier.size other) :
    ∀ other ∈ walked ++ [dotted] ++ (pending ++ newIn (walked ++ dotted :: pending)
        (table.additions (earlier.push (walked ++ dotted :: pending)) earlier.size dotted)),
      table.Belongs tokens earlier.size other := by
  intro other member
  rcases mem_after_item.1 member with old | fresh
  · exact begun other old
  · exact (begun dotted (by simp)).additions marks (belongs_of_push sound begun)
      (mem_newIn.1 fresh).1

/-- What is walked through belongs at the place, if what the walk begins with does. -/
theorem Walks.sound (marks : table.nullable = table.rules.nullable)
    (sound : ∀ place, ∀ other ∈ earlier.getD place [], table.Belongs tokens place other)
    (walks : table.Walks earlier walked pending set)
    (begun : ∀ other ∈ walked ++ pending, table.Belongs tokens earlier.size other) :
    ∀ other ∈ set, table.Belongs tokens earlier.size other := by
  induction walks with
  | finished => simpa using begun
  | item _ ih => exact ih (belongs_fresh marks sound begun)

/-- All items that can belong at a place. -/
def dottedUpTo (table : Table) (place : Nat) : List Dotted :=
  (List.range table.rules.size).flatMap fun head =>
    (List.range (table.rules.alternatives head).length).flatMap fun number =>
      (List.range (((table.rules.alternatives head)[number]?.getD []).length + 1)).flatMap fun dot =>
        (List.range (place + 1)).map fun origin => ⟨head, number, origin, dot⟩

/-- Items that belong at a place are among those that can. -/
theorem Belongs.mem_dottedUpTo {place : Nat} (belongs : table.Belongs tokens place dotted) :
    dotted ∈ table.dottedUpTo place := by
  have head := Rules.lt_size_of_mem_alternatives (alternative_mem belongs.known)
  have origin := belongs.spans.le
  have within := belongs.within
  rw [Dotted.alternative] at within
  simp only [dottedUpTo, List.mem_flatMap, List.mem_map, List.mem_range]
  exact ⟨dotted.head, head, dotted.number, belongs.known, dotted.dot, by omega, dotted.origin,
    by omega, rfl⟩

/-- A walk comes to an end: it looks at each item once, and only so many can belong. -/
theorem exists_walks (marks : table.nullable = table.rules.nullable)
    (sound : ∀ place, ∀ other ∈ earlier.getD place [], table.Belongs tokens place other)
    (nodup : (walked ++ pending).Nodup)
    (begun : ∀ other ∈ walked ++ pending, table.Belongs tokens earlier.size other) :
    ∃ set, table.Walks earlier walked pending set := by
  induction left : (table.dottedUpTo earlier.size).length - walked.length using Nat.strongRecOn
    generalizing walked pending with
  | ind room ih =>
    cases pending with
    | nil => exact ⟨walked, .finished walked⟩
    | cons next pending =>
      have bound := (nodup.subperm fun other member =>
        (begun other member).mem_dottedUpTo).length_le
      rw [List.length_append, List.length_cons] at bound
      have fewer : (table.dottedUpTo earlier.size).length - (walked ++ [next]).length < room := by
        rw [List.length_append, List.length_singleton]
        omega
      have fresh := nodup_newIn_append
        (table.additions (earlier.push (walked ++ next :: pending)) earlier.size next) nodup
      have distinct := List.perm_append_comm.nodup_iff.1 fresh
      rw [List.append_assoc, List.cons_append] at distinct
      obtain ⟨set, walks⟩ := ih _ fewer (by simpa using distinct)
        (belongs_fresh marks sound begun) rfl
      exact ⟨set, .item walks⟩

/-- What a walk begins with stays in the set. -/
theorem Walks.subset (walks : table.Walks earlier walked pending set) :
    ∀ other ∈ walked ++ pending, other ∈ set := by
  induction walks with
  | finished => simp
  | item _ ih => exact fun other member => ih other (mem_after_item.2 (.inl member))

/-- An item looks at nothing in the sets but the set where it began, and at that only if it is
done. -/
theorem additions_congr {sets others : Array (List Dotted)} {place : Nat}
    (same : dotted.rest table.rules = [] →
      sets.getD dotted.origin [] = others.getD dotted.origin []) :
    table.additions sets place dotted = table.additions others place dotted := by
  unfold additions
  split
  · next finished => rw [same finished]
  · rfl
  · rfl
  · rfl

/-- What an item that is not done where it began adds is in the set when the walk is over. -/
theorem Walks.closed (walks : table.Walks earlier walked pending set)
    (looked : ∀ other ∈ walked, (other.rest table.rules = [] → other.origin < earlier.size) →
      ∀ next ∈ table.additions earlier earlier.size other, next ∈ walked ++ pending) :
    ∀ other ∈ set, (other.rest table.rules = [] → other.origin < earlier.size) →
      ∀ next ∈ table.additions earlier earlier.size other, next ∈ set := by
  induction walks with
  | finished => simpa using looked
  | @item walked pending set next _ ih =>
    refine ih fun other member before added found => ?_
    rw [mem_after_item]
    rcases List.mem_append.1 member with old | here
    · exact .inl (looked other old before added found)
    · obtain rfl := List.mem_singleton.1 here
      have unfinished : table.additions (earlier.push (walked ++ other :: pending)) earlier.size
          other = table.additions earlier earlier.size other := by
        refine additions_congr fun finished => ?_
        rw [getD_push, if_neg (Nat.ne_of_lt (before finished))]
      by_cases known : added ∈ walked ++ other :: pending
      · exact .inl known
      · exact .inr (mem_newIn.2 ⟨unfinished ▸ found, known⟩)

end

/-! ## All sets -/

/-- Sets hold what follows from the items in them. -/
structure HoldsSteps (table : Table) (tokens : List String) (sets : Array (List Dotted)) :
    Prop where
  /-- The start begins at the first place. -/
  start : ∀ next ∈ table.begins 0 table.rules.start, next ∈ sets.getD 0 []
  /-- What an item adds that is not done where it began. -/
  adds : ∀ place, ∀ dotted ∈ sets.getD place [],
    (dotted.rest table.rules = [] → dotted.origin < place) →
      ∀ next ∈ table.additions sets place dotted, next ∈ sets.getD place []
  /-- What is past the next token. -/
  scans : ∀ place token, tokens[place]? = some token → ∀ dotted ∈ sets.getD place [],
    ∀ next, dotted.scan? table.rules token = some next → next ∈ sets.getD (place + 1) []

variable {sets : Array (List Dotted)}

/-- There is one set for each place. -/
theorem FillsInPlace.size (fills : table.FillsInPlace tokens sets) :
    sets.size = tokens.length + 1 := by
  induction fills with
  | first => rfl
  | token _ _ ih => simp [ih]

/-- Only places among the sets have items. -/
theorem lt_size_of_mem {place : Nat} (member : dotted ∈ sets.getD place []) :
    place < sets.size := by
  by_contra beyond
  simp [Array.getD_eq_getD_getElem?, Array.getElem?_eq_none (Nat.le_of_not_lt beyond)] at member

/-- The last set is that of the last place. -/
theorem back_eq_getD {place : Nat} (size : sets.size = place + 1) :
    sets.back?.getD [] = sets.getD place [] := by
  rw [Array.back?_eq_getElem?, Array.getD_eq_getD_getElem?, size, Nat.add_sub_cancel]

/-- Sets filled in place hold what follows from the items in them. -/
theorem FillsInPlace.holdsSteps (fills : table.FillsInPlace tokens sets) :
    table.HoldsSteps tokens sets := by
  induction fills with
  | @first set walks =>
    have closed := walks.closed (by simp)
    constructor
    · intro next member
      exact walks.subset next (by simpa using member)
    · intro place dotted member before next added
      obtain rfl : place = 0 := by simpa using lt_size_of_mem member
      refine closed dotted member before next ?_
      rwa [additions_congr fun finished => absurd (before finished) (Nat.not_lt_zero _)] at added
    · intro place token found
      simp at found
  | @token read token sets set filled walks ih =>
    have size := filled.size
    have closed := walks.closed (by simp)
    constructor
    · intro next member
      rw [getD_push, if_neg (by omega)]
      exact ih.start next member
    · intro place dotted member before next added
      have below := lt_size_of_mem member
      rw [Array.size_push] at below
      have earlier : table.additions (sets.push set) place dotted =
          table.additions sets place dotted := by
        refine additions_congr fun finished => ?_
        have sooner := before finished
        rw [getD_push, if_neg (by omega)]
      rw [earlier] at added
      rw [getD_push] at member ⊢
      split at member
      · next here =>
        subst here
        rw [if_pos rfl]
        exact closed dotted member before next added
      · next old =>
        rw [if_neg old]
        exact ih.adds place dotted member before next added
    · intro place other found dotted member next scanned
      have below : place < (read ++ [token]).length := (List.getElem?_eq_some_iff.1 found).1
      rw [List.length_append, List.length_singleton] at below
      rw [getD_push, if_neg (by omega)] at member
      by_cases last : place = read.length
      · subst last
        obtain rfl : token = other := by simpa using found
        rw [getD_push, if_pos size.symm]
        refine walks.subset next ?_
        rw [back_eq_getD size, List.nil_append, List.mem_eraseDups]
        exact List.mem_filterMap.2 ⟨dotted, member, scanned⟩
      · rw [getD_push, if_neg (by omega)]
        rw [List.getElem?_append_left (by omega)] at found
        exact ih.scans place other found dotted member next scanned

/-- An item whose next symbols derive the tokens up to a place goes on from there. -/
theorem HoldsSteps.advance (marks : table.nullable = table.rules.nullable)
    (holds : table.HoldsSteps tokens sets) {symbols : List Symbol} {start stop : Nat}
    (spans : table.rules.Spans tokens symbols start stop) {others : List Symbol}
    (member : dotted ∈ sets.getD start []) (shape : dotted.rest table.rules = symbols ++ others) :
    dotted.advance symbols.length ∈ sets.getD stop [] := by
  induction spans generalizing dotted others with
  | nil => exact member
  | @terminal symbol token kind rest start stop found matched _ ih =>
    have scanned : dotted.advance 1 ∈ sets.getD (start + 1) [] :=
      holds.scans start token found dotted member _
        (Dotted.scan?_eq_some_iff.2 ⟨symbol, _, kind, shape, matched, rfl⟩)
    have left := @Dotted.rest_advance table.rules dotted [symbol] (rest ++ others) shape
    have found := ih scanned left
    rwa [Dotted.advance_advance, Nat.add_comm] at found
  | @nonterminal index alternative rest start split stop listed body tail bodyIH tailIH =>
    have left := @Dotted.rest_advance table.rules dotted [.nonterminal index] (rest ++ others) shape
    have notDone : dotted.rest table.rules = [] → dotted.origin < start := by simp [shape]
    have past : dotted.advance 1 ∈ sets.getD split [] := by
      by_cases empty : start = split
      · subst empty
        have nullable : table.nullable.getD index false = true := by
          rw [marks]
          exact Rules.nullable_iff.2 (Rules.derives_nonterminal_iff.2 ⟨_, listed, body.derives_nil⟩)
        exact holds.adds start dotted member notDone _
          (mem_additions.2 (.inr ⟨index, _, shape, .inr ⟨nullable, rfl⟩⟩))
      · obtain ⟨number, below, same⟩ := List.getElem_of_mem listed
        let begun : Dotted := ⟨index, number, start, 0⟩
        have whole : begun.rest table.rules = alternative ++ [] := by
          simp [begun, Dotted.rest, Dotted.alternative, List.getElem?_eq_getElem below, same]
        have predicted : begun ∈ sets.getD start [] :=
          holds.adds start dotted member notDone _
            (mem_additions.2 (.inr ⟨index, _, shape, .inl (mem_begins.2 ⟨below, rfl⟩)⟩))
        have finished := bodyIH predicted whole
        have earlier : start < split := Nat.lt_of_le_of_ne body.le empty
        exact holds.adds split _ finished (fun _ => earlier) _
          (mem_additions.2 (.inl ⟨Dotted.rest_advance whole, dotted, member,
            Dotted.over?_eq_some_iff.2 ⟨⟨_, shape⟩, rfl⟩⟩))
    have found := tailIH past left
    rwa [Dotted.advance_advance, Nat.add_comm] at found

/-- The alternatives of an awaited nonterminal begin where it is awaited. -/
theorem HoldsSteps.begins (marks : table.nullable = table.rules.nullable)
    (holds : table.HoldsSteps tokens sets) {head origin : Nat}
    (awaited : table.rules.Awaited tokens head origin)
    (member : dotted ∈ table.begins origin head) : dotted ∈ sets.getD origin [] := by
  induction awaited generalizing dotted with
  | start => exact holds.start dotted member
  | @inside outer began place index before rest _ listed read ih =>
    obtain ⟨number, below, same⟩ := List.getElem_of_mem listed
    let begun : Dotted := ⟨outer, number, began, 0⟩
    have whole : begun.rest table.rules = before ++ .nonterminal index :: rest := by
      simp [begun, Dotted.rest, Dotted.alternative, List.getElem?_eq_getElem below, same]
    have waiting := holds.advance marks read (ih (mem_begins.2 ⟨below, rfl⟩)) whole
    have left := Dotted.rest_advance whole
    exact holds.adds place _ waiting (by simp [left]) _
      (mem_additions.2 (.inr ⟨index, rest, left, .inl member⟩))

/-- Sets that hold what follows hold every item where it belongs. -/
theorem HoldsSteps.mem_of_belongs (marks : table.nullable = table.rules.nullable)
    (holds : table.HoldsSteps tokens sets) {place : Nat}
    (belongs : table.Belongs tokens place dotted) : dotted ∈ sets.getD place [] := by
  obtain ⟨head, number, origin, dot⟩ := dotted
  let begun : Dotted := ⟨head, number, origin, 0⟩
  have whole : begun.rest table.rules = Dotted.passed table.rules ⟨head, number, origin, dot⟩ ++
      Dotted.rest table.rules ⟨head, number, origin, dot⟩ := by
    rw [Dotted.passed_append_rest]
    rfl
  have first : begun ∈ sets.getD origin [] :=
    holds.begins marks belongs.awaited (mem_begins.2 ⟨belongs.known, rfl⟩)
  have found := holds.advance marks belongs.spans first whole
  have reached : (Dotted.passed table.rules ⟨head, number, origin, dot⟩).length = dot :=
    List.length_take_of_le belongs.within
  rw [reached] at found
  simpa [begun, Dotted.advance] using found

/-- What is past the last token belongs after it. -/
theorem belongs_scanned {place : Nat} {token : String} (size : sets.size = place + 1)
    (found : tokens[place]? = some token)
    (sound : ∀ earlier, ∀ other ∈ sets.getD earlier [], table.Belongs tokens earlier other) :
    ∀ other ∈ ((sets.back?.getD []).filterMap (Dotted.scan? table.rules token)).eraseDups,
      table.Belongs tokens sets.size other := by
  intro other member
  rw [back_eq_getD size, List.mem_eraseDups] at member
  obtain ⟨waiting, listed, scanned⟩ := List.mem_filterMap.1 member
  obtain ⟨symbol, others, kind, shape, matched, rfl⟩ := Dotted.scan?_eq_some_iff.1 scanned
  rw [size]
  exact (sound place waiting listed).next shape (.terminal found matched (.nil _))

/-- The start belongs at the first place. -/
theorem belongs_start : ∀ other ∈ (table.begins 0 table.rules.start).eraseDups,
    table.Belongs tokens (#[] : Array (List Dotted)).size other :=
  fun _ member => Belongs.begin .start (List.mem_eraseDups.1 member)

/-- Before the first place there are no items. -/
theorem belongs_empty : ∀ place, ∀ other ∈ (#[] : Array (List Dotted)).getD place [],
    table.Belongs tokens place other := by
  simp

/-- Items of sets filled in place belong where they are. -/
theorem FillsInPlace.belongs (marks : table.nullable = table.rules.nullable)
    {read others : List String} (fills : table.FillsInPlace read sets)
    (same : tokens = read ++ others) :
    ∀ place, ∀ other ∈ sets.getD place [], table.Belongs tokens place other := by
  induction fills generalizing others with
  | first walks =>
    exact belongs_of_push belongs_empty (walks.sound marks belongs_empty belongs_start)
  | @token read token sets set filled walks ih =>
    rw [List.append_assoc] at same
    have sound := ih same
    have found : tokens[read.length]? = some token := by simp [same]
    exact belongs_of_push sound (walks.sound marks sound (belongs_scanned filled.size found sound))

/-- Sets filled in place hold exactly the items that belong there. -/
theorem FillsInPlace.mem_iff (marks : table.nullable = table.rules.nullable)
    (fills : table.FillsInPlace tokens sets) {place : Nat} :
    dotted ∈ sets.getD place [] ↔ table.Belongs tokens place dotted := by
  constructor
  · exact fills.belongs marks (List.append_nil tokens).symm place dotted
  · exact fills.holdsSteps.mem_of_belongs marks

/-- Filling in place comes to an end. -/
theorem exists_fillsInPlace (marks : table.nullable = table.rules.nullable)
    (tokens : List String) : ∃ sets, table.FillsInPlace tokens sets := by
  induction tokens using List.reverseRecOn with
  | nil =>
    obtain ⟨set, walks⟩ := @exists_walks table [] #[] [] _ marks belongs_empty
      (nodup_eraseDups (table.begins 0 table.rules.start)) belongs_start
    exact ⟨#[set], .first walks⟩
  | append_singleton read token ih =>
    obtain ⟨sets, fills⟩ := ih
    have sound := fills.belongs marks (rfl : read ++ [token] = read ++ [token])
    have found : (read ++ [token])[read.length]? = some token := by simp
    obtain ⟨set, walks⟩ := @exists_walks table _ sets [] _ marks sound (nodup_eraseDups _)
      (belongs_scanned fills.size found sound)
    exact ⟨sets.push set, .token fills walks⟩

/-- An item stands in the set of a chart exactly if some alternative has it in the set filled in
place. -/
theorem FillsInPlace.mem_sets_iff (marks : table.nullable = table.rules.nullable)
    (fills : table.FillsInPlace tokens sets) {place : Nat} {item : Item} :
    item ∈ (table.sets tokens).getD place [] ↔
      ∃ dotted ∈ sets.getD place [], dotted.item table.rules = item := by
  by_cases inside : place ≤ tokens.length
  · rw [Table.mem_sets_iff inside, charted_iff marks]
    constructor
    · rintro ⟨awaited, before, listed, spans⟩
      obtain ⟨number, below, same⟩ := List.getElem_of_mem listed
      let dotted : Dotted := ⟨item.head, number, item.origin, before.length⟩
      have whole : dotted.alternative table.rules = before ++ item.rest := by
        simp [dotted, Dotted.alternative, List.getElem?_eq_getElem below, same]
      refine ⟨dotted, (fills.mem_iff marks).2 ⟨below, ?_, awaited, ?_⟩, ?_⟩
      · simp [whole, dotted]
      · rw [Dotted.passed, whole, List.take_left]
        exact spans
      · rw [Dotted.item, Dotted.rest, whole, List.drop_left]
    · rintro ⟨dotted, member, rfl⟩
      have belongs := (fills.mem_iff marks).1 member
      refine ⟨belongs.awaited, dotted.passed table.rules, ?_, belongs.spans⟩
      have whole := @Dotted.passed_append_rest table.rules dotted
      exact whole ▸ alternative_mem belongs.known
  · have size := fills.size
    constructor
    · intro member
      have beyond : (table.sets tokens).size ≤ place := by
        rw [Table.sets_size]
        omega
      simp [Array.getD_eq_getD_getElem?, Array.getElem?_eq_none beyond] at member
    · rintro ⟨dotted, member, _⟩
      have below := lt_size_of_mem member
      omega

end Table

end CommandGrammar
