import CommandGrammar.Chart

/-!
# Reading a tree from a chart

Of the derivations that a chart holds one is read back. From left to right each
symbol of an alternative takes the longest span that lets the others match the
rest, and earlier alternatives win over later ones. The items of a star are read in
a loop. Nested expressions leave no branch of their own: their parts stand in the
branch of the rule around them.

A nonterminal that is met again on the same span inside itself is refused, which cuts
cyclic derivations. Along nested nonterminals the span shrinks or one more nonterminal
is open on it, so the number of spans and nonterminals bounds the depth.
-/

namespace CommandGrammar

/-- A nonterminal on a span: its number, the place where it begins and the place of its end. -/
abbrev Span := Nat × Nat × Nat

/-- Reads the trees of a nonterminal on a span. -/
abbrev SpanReader := Nat → Nat → Nat → Option (List Tree)

/-- What reading needs: the rules, the tokens of the line and their chart. -/
structure Reading where
  /-- The rules. -/
  rules : Rules
  /-- The tokens of the line. -/
  tokens : Array String
  /-- Their chart. -/
  chart : Chart

namespace Reading

/-- The leaf of a token that a terminal matches. -/
def leaf? (reading : Reading) (symbol : Symbol) (place : Nat) : Option Tree := do
  let token ← reading.tokens[place]?
  let kind ← symbol.matches? token
  return .leaf ⟨kind, token, place⟩

/-- Where a symbol that begins at a place can end, at most at another place, later ends first. -/
def symbolEnds (reading : Reading) (symbol : Symbol) (start stop : Nat) : List Nat :=
  match symbol with
  | .nonterminal index => reading.chart.ends index start stop
  | terminal =>
    if start < stop ∧ (reading.leaf? terminal start).isSome then [start + 1] else []

/-- The places that symbols, one after the other, can reach from some places. -/
def reach (reading : Reading) (stop : Nat) : List Symbol → List Nat → List Nat
  | [], places => places
  | symbol :: rest, places =>
    reading.reach stop rest
      (places.flatMap fun place => reading.symbolEnds symbol place stop).eraseDups

/-- The symbols can match the tokens between two places. -/
def isFeasible (reading : Reading) (symbols : List Symbol) (start stop : Nat) : Bool :=
  (reading.reach stop symbols [start]).contains stop

/-- Reads symbols between two places, each on the longest span that works out. -/
def readSymbols (reading : Reading) (read : SpanReader) :
    List Symbol → Nat → Nat → Option (List Tree)
  | [], start, stop => if start = stop then some [] else none
  | .nonterminal index :: rest, start, stop =>
    (reading.chart.ends index start stop).findSome? fun split =>
      if reading.isFeasible rest split stop then
        match read index start split with
        | none => none
        | some trees => (reading.readSymbols read rest split stop).map (trees ++ ·)
      else none
  | terminal :: rest, start, stop =>
    if start < stop then
      match reading.leaf? terminal start with
      | none => none
      | some tree => (reading.readSymbols read rest (start + 1) stop).map (tree :: ·)
    else none

/-- Where an item of a star that begins at a place can end; items are not empty. -/
def itemEnds (reading : Reading) (item : Symbol) (start stop : Nat) : List Nat :=
  (reading.symbolEnds item start stop).filter (start < ·)

/-- The places from which items lead to the end, given a number of places before the end. -/
def itemStarts (reading : Reading) (item : Symbol) (stop : Nat) : Nat → List Nat
  | 0 => [stop]
  | before + 1 =>
    let found := reading.itemStarts item stop before
    let place := stop - (before + 1)
    if (reading.itemEnds item place stop).any found.contains then place :: found else found

/-- Reads an item of a star. -/
def readItem (reading : Reading) (read : SpanReader) (item : Symbol) (start stop : Nat) :
    Option (List Tree) :=
  match item with
  | .nonterminal index => read index start stop
  | terminal =>
    if start + 1 = stop then (reading.leaf? terminal start).map ([·]) else none

/-- Reads items up to the end, each on the longest span from which items lead there. The
fuel bounds the number of items. -/
def readItems (reading : Reading) (read : SpanReader) (item : Symbol) (starts : List Nat)
    (stop : Nat) : Nat → Nat → Option (List Tree)
  | 0, start => if start = stop then some [] else none
  | fuel + 1, start =>
    if start = stop then some []
    else
      let step := (reading.itemEnds item start stop).findSome? fun split =>
        if starts.contains split then
          (reading.readItem read item start split).map fun trees => (split, trees)
        else none
      match step with
      | none => none
      | some (split, trees) =>
        (reading.readItems read item starts stop fuel split).map (trees ++ ·)

/-- Reads the items of a star between two places. -/
def readStar (reading : Reading) (read : SpanReader) (item : Symbol) (start stop : Nat) :
    Option (List Tree) :=
  let starts := reading.itemStarts item stop (stop - start)
  if starts.contains start then
    reading.readItems read item starts stop (stop - start) start
  else none

/-- Reads a nonterminal between two places: the items of a star, or else by its alternatives. -/
def readEither (reading : Reading) (read : SpanReader) : SpanReader :=
  fun index start stop =>
    match reading.rules.label index with
    | .star item => reading.readStar read item start stop
    | .named _ | .auxiliary => read index start stop

/-- The trees that a nonterminal leaves: one branch for a rule, its parts for the others. -/
def wrap (label : Label) (trees : List Tree) : List Tree :=
  match label with
  | .named id => [.branch id trees]
  | .auxiliary | .star _ => trees

/-- Reads a nonterminal by the first of its alternatives that works out, unless it is open on
the same span. The fuel bounds the number of open nonterminals. -/
def readAlternatives (reading : Reading) : Nat → List Span → SpanReader
  | 0, _, _, _, _ => none
  | fuel + 1, opened, index, start, stop =>
    if opened.contains (index, start, stop) then none
    else
      let read := reading.readEither
        (reading.readAlternatives fuel ((index, start, stop) :: opened))
      let trees := (reading.rules.alternatives index).findSome? fun symbols =>
        if reading.isFeasible symbols start stop then
          reading.readSymbols read symbols start stop
        else none
      trees.map (wrap (reading.rules.label index))

/-- A bound for the number of nonterminals that are open at once. -/
def depth (reading : Reading) : Nat := (reading.tokens.size + 1) * (reading.rules.size + 1)

/-- The trees of a nonterminal on all tokens. -/
def whole (reading : Reading) (index : Nat) : Option (List Tree) :=
  reading.readEither (reading.readAlternatives reading.depth []) index 0 reading.tokens.size

end Reading

end CommandGrammar
