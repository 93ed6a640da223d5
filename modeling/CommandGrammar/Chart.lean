import CommandGrammar.Chart.Closure
import CommandGrammar.Chart.Nullable

/-!
# Charts

A chart has a set of items for every place between tokens. An item says which
nonterminal is being derived, from which place on, and which symbols of one of its
alternatives are still to come. A set is closed under prediction of the nonterminals
to come and under completion of the ones that are done.

A nonterminal that derives nothing is passed over as soon as it is predicted. So
completion only looks back to earlier places, whose sets are finished, and a set is
a plain closure.
-/

namespace CommandGrammar

/-- A partly derived alternative. -/
structure Item where
  /-- The nonterminal being derived. -/
  head : Nat
  /-- The place where its derivation began. -/
  origin : Nat
  /-- The symbols to come. -/
  rest : List Symbol
deriving DecidableEq, Repr, Inhabited

/-- The item past its next symbol, if that is the nonterminal. -/
def Item.over? (index : Nat) (item : Item) : Option Item :=
  match item.rest with
  | .nonterminal next :: rest => if next = index then some { item with rest } else none
  | _ => none

/-- The item past its next symbol, if that matches the token. -/
def Item.scan? (token : String) (item : Item) : Option Item :=
  match item.rest with
  | [] => none
  | symbol :: rest => (symbol.matches? token).map fun _ => { item with rest }

/-- Flat rules with what is computed from them once for all lines. -/
structure Table where
  /-- The rules. -/
  rules : Rules
  /-- The marks of the nullable nonterminals. -/
  nullable : Array Bool
  /-- The literals that begin with a dash. -/
  triggers : List String
deriving Inhabited

namespace Table

/-- The table of a grammar. -/
def ofGrammar (grammar : Grammar) : Table :=
  let rules := Rules.ofGrammar grammar
  ⟨rules, rules.nullable, rules.triggers⟩

/-- The items that begin a nonterminal at a place. -/
def predicted (table : Table) (place index : Nat) : List Item :=
  (table.rules.alternatives index).map fun alternative => ⟨index, place, alternative⟩

/-- What an item adds to the set of its place, given the sets of all earlier places. -/
def expand (table : Table) (earlier : Array (List Item)) (item : Item) : List Item :=
  match item.rest with
  | [] => (earlier.getD item.origin []).filterMap (Item.over? item.head)
  | .nonterminal index :: rest =>
    table.predicted earlier.size index ++
      if table.nullable.getD index false then [{ item with rest }] else []
  | .literal _ :: _ | .value :: _ => []

/-- Number of ways to put a dot into an alternative of any nonterminal. -/
def dotCount (table : Table) : Nat :=
  table.rules.nonterminals.toList.foldr (fun nonterminal total =>
    nonterminal.alternatives.foldr (fun alternative count => alternative.length + 1 + count) total) 0

/-- The set of the next place, from the items that begin it. -/
def nextSet (table : Table) (earlier : Array (List Item)) (seeds : List Item) : List Item :=
  closure (table.expand earlier) (table.dotCount * (earlier.size + 1)) seeds

/-- Adds the set of the place after a token. -/
def scanToken (table : Table) (sets : Array (List Item)) (token : String) : Array (List Item) :=
  sets.push (table.nextSet sets ((sets.back?.getD []).filterMap (Item.scan? token)))

/-- The sets of all places between tokens. -/
def sets (table : Table) (tokens : List String) : Array (List Item) :=
  tokens.foldl table.scanToken #[table.nextSet #[] (table.predicted 0 table.rules.start)]

end Table

/-- The nonterminals that are done at a place, with the places where they began. -/
def doneIn (set : List Item) : List (Nat × Nat) :=
  set.filterMap fun item => if item.rest.isEmpty then some (item.head, item.origin) else none

/-- The nonterminals that begin at a place and are done at some place, with the place of
their end, later ends first. -/
def spansFrom (done : Array (List (Nat × Nat))) (start : Nat) : List (Nat × Nat) :=
  (List.range done.size).reverse.flatMap fun stop =>
    (done.getD stop []).filterMap fun (head, origin) =>
      if origin = start then some (head, stop) else none

/-- The sets of a line, and the spans of tokens that nonterminals were found to derive. -/
structure Chart where
  /-- The sets of all places. -/
  sets : Array (List Item)
  /-- For each place the nonterminals that begin there, with their ends, later ends first. -/
  spans : Array (List (Nat × Nat))
deriving Inhabited

namespace Chart

/-- The chart of a sequence of tokens. -/
def ofTokens (table : Table) (tokens : List String) : Chart :=
  let sets := table.sets tokens
  let done := sets.map doneIn
  ⟨sets, (Array.range sets.size).map (spansFrom done)⟩

/-- Where a nonterminal that begins at a place can end, at most at another place, later ends
first. -/
def ends (chart : Chart) (index start stop : Nat) : List Nat :=
  (chart.spans.getD start []).filterMap fun (head, last) =>
    if head = index ∧ last ≤ stop then some last else none

/-- The nonterminal was found to derive the tokens between two places. -/
def covers (chart : Chart) (index start stop : Nat) : Bool :=
  (chart.spans.getD start []).contains (index, stop)

/-- The last place that some item reached. -/
def furthest (chart : Chart) : Nat :=
  ((List.range chart.sets.size).reverse.find? fun place =>
    !(chart.sets.getD place []).isEmpty).getD 0

end Chart

/-- What an item waits for, as it is listed in messages. -/
def Item.awaited? (item : Item) : Option String :=
  match item.rest with
  | .literal text :: _ => some text
  | .value :: _ => some "<value>"
  | _ => none

/-- The texts in order, without repetitions. -/
def sortedTexts (texts : List String) : List String :=
  (Keyed.ofEntries (texts.map fun text => (text, ()))).map Prod.fst

/-- What could have come at the last place that some item reached. -/
def Chart.expected (chart : Chart) : List String :=
  sortedTexts ((chart.sets.getD chart.furthest []).filterMap Item.awaited?)

end CommandGrammar
