import Mathlib
import CommandGrammar.Chart.Reading
import CommandGrammar.Proofs.Chart.Spans

/-!
# Derivations without cycles

The reader refuses a nonterminal that is open on the same span. A derivation is clear of
the open spans if it uses none of them and repeats no span inside itself, stars apart;
these are the derivations that the reader can follow. A derivation that merely avoids
the open spans can be made clear: where a span occurs inside itself the inner occurrence
may stand for the outer one, and the derivation gets lower.
-/

namespace CommandGrammar

namespace Rules

/-- Every star derives itself and an item, or nothing, and its item is no star. -/
structure StarShaped (rules : Rules) : Prop where
  /-- The alternatives of a star. -/
  alternatives : ∀ {index : Nat} {item : Symbol}, rules.label index = .star item →
    rules.alternatives index = [[.nonterminal index, item], []]
  /-- Items are no stars. -/
  item : ∀ {index other : Nat} {inner : Symbol}, rules.label index = .star (.nonterminal other) →
    rules.label other ≠ .star inner

/-- A derivation between two places, of at most a height, in which no nonterminal but stars is on
an open span. -/
inductive Avoids (rules : Rules) (tokens : List String) (opened : List Span) :
    Nat → List Symbol → Nat → Nat → Prop where
  /-- No symbol needs no derivation. -/
  | nil (height place : Nat) : Avoids rules tokens opened height [] place place
  /-- A terminal opens nothing. -/
  | terminal {height : Nat} {symbol : Symbol} {token : String} {kind : LeafKind}
      {rest : List Symbol} {start stop : Nat} (found : tokens[start]? = some token)
      (matched : symbol.matches? token = some kind)
      (tail : Avoids rules tokens opened height rest (start + 1) stop) :
      Avoids rules tokens opened height (symbol :: rest) start stop
  /-- The span of a nonterminal is not open, unless it is a star. -/
  | nonterminal {height index : Nat} {alternative rest : List Symbol} {start split stop : Nat}
      (free : (∃ item, rules.label index = .star item) ∨ (index, start, split) ∉ opened)
      (member : alternative ∈ rules.alternatives index)
      (body : Avoids rules tokens opened height alternative start split)
      (tail : Avoids rules tokens opened (height + 1) rest split stop) :
      Avoids rules tokens opened (height + 1) (.nonterminal index :: rest) start stop

/-- A derivation between two places that uses no open span and repeats none of its own; the
items of a star are derived one after the other and are not empty. -/
inductive Clear (rules : Rules) (tokens : List String) :
    List Span → List Symbol → Nat → Nat → Prop where
  /-- No symbol needs no derivation. -/
  | nil (opened : List Span) (place : Nat) : Clear rules tokens opened [] place place
  /-- A terminal opens nothing. -/
  | terminal {opened : List Span} {symbol : Symbol} {token : String} {kind : LeafKind}
      {rest : List Symbol} {start stop : Nat} (found : tokens[start]? = some token)
      (matched : symbol.matches? token = some kind)
      (tail : Clear rules tokens opened rest (start + 1) stop) :
      Clear rules tokens opened (symbol :: rest) start stop
  /-- Inside a nonterminal its own span is open. -/
  | nonterminal {opened : List Span} {index : Nat} {alternative rest : List Symbol}
      {start split stop : Nat} (plain : ∀ item, rules.label index ≠ .star item)
      (free : (index, start, split) ∉ opened) (member : alternative ∈ rules.alternatives index)
      (body : Clear rules tokens ((index, start, split) :: opened) alternative start split)
      (tail : Clear rules tokens opened rest split stop) :
      Clear rules tokens opened (.nonterminal index :: rest) start stop
  /-- A star may end anywhere. -/
  | starEnd {opened : List Span} {index : Nat} {item : Symbol} {rest : List Symbol}
      {start stop : Nat} (star : rules.label index = .star item)
      (tail : Clear rules tokens opened rest start stop) :
      Clear rules tokens opened (.nonterminal index :: rest) start stop
  /-- A star goes on with an item that is not empty. -/
  | starItem {opened : List Span} {index : Nat} {item : Symbol} {rest : List Symbol}
      {start split stop : Nat} (star : rules.label index = .star item) (below : start < split)
      (first : Clear rules tokens opened [item] start split)
      (tail : Clear rules tokens opened (.nonterminal index :: rest) split stop) :
      Clear rules tokens opened (.nonterminal index :: rest) start stop

variable {rules : Rules} {tokens : List String} {opened : List Span}

/-- A derivation of at most a height is one of at most a greater height. -/
theorem Avoids.mono {height more : Nat} {symbols : List Symbol} {start stop : Nat}
    (avoids : rules.Avoids tokens opened height symbols start stop) (ordered : height ≤ more) :
    rules.Avoids tokens opened more symbols start stop := by
  induction avoids generalizing more with
  | nil => exact .nil more _
  | terminal found matched _ ih => exact .terminal found matched (ih ordered)
  | nonterminal free member _ _ bodyIH tailIH =>
    obtain ⟨lower, rfl⟩ : ∃ lower, more = lower + 1 := ⟨more - 1, by omega⟩
    exact .nonterminal free member (bodyIH (by omega)) (tailIH ordered)

/-- A derivation of a span inside which nothing is open avoids what is open. -/
theorem Spans.avoids {symbols : List Symbol} {start stop : Nat}
    (spans : rules.Spans tokens symbols start stop)
    (outside : ∀ span ∈ opened, ¬ (start ≤ span.2.1 ∧ span.2.2 ≤ stop)) :
    ∃ height, rules.Avoids tokens opened height symbols start stop := by
  induction spans with
  | nil place => exact ⟨0, .nil 0 place⟩
  | terminal found matched _ ih =>
    obtain ⟨height, tail⟩ := ih fun span member inside => outside span member ⟨by omega, inside.2⟩
    exact ⟨height, .terminal found matched tail⟩
  | @nonterminal index alternative rest start split stop member body tail bodyIH tailIH =>
    have first := body.le
    have second := tail.le
    obtain ⟨low, inner⟩ := bodyIH fun span member inside =>
      outside span member ⟨inside.1, by omega⟩
    obtain ⟨high, outer⟩ := tailIH fun span member inside =>
      outside span member ⟨by omega, inside.2⟩
    have free : (index, start, split) ∉ opened := fun member =>
      outside _ member ⟨Nat.le_refl _, second⟩
    exact ⟨max low high + 1, .nonterminal (.inr free) member (inner.mono (by omega))
      (outer.mono (by omega))⟩

/-- What avoids the open spans is derived. -/
theorem Avoids.spans {height : Nat} {symbols : List Symbol} {start stop : Nat}
    (avoids : rules.Avoids tokens opened height symbols start stop) :
    rules.Spans tokens symbols start stop := by
  induction avoids with
  | nil => exact .nil _
  | terminal found matched _ ih => exact .terminal found matched ih
  | nonterminal _ member _ _ bodyIH tailIH => exact .nonterminal member bodyIH tailIH

/-- A derivation avoids one more span, or else contains a lower derivation of that span. -/
theorem Avoids.openNext {height : Nat} {symbols : List Symbol} {start stop : Nat}
    (avoids : rules.Avoids tokens opened height symbols start stop) (index first last : Nat) :
    rules.Avoids tokens ((index, first, last) :: opened) height symbols start stop ∨
      ∃ lower < height, ∃ alternative ∈ rules.alternatives index,
        rules.Avoids tokens opened lower alternative first last := by
  induction avoids with
  | nil => exact .inl (.nil _ _)
  | terminal found matched _ ih => exact ih.imp_left (.terminal found matched)
  | @nonterminal height other alternative rest start split stop free member body tail bodyIH
      tailIH =>
    by_cases same : (other, start, split) = (index, first, last)
    · obtain ⟨rfl, rfl, rfl⟩ : other = index ∧ start = first ∧ split = last := by
        simpa using same
      exact .inr ⟨height, Nat.lt_succ_self _, alternative, member, body⟩
    · rcases bodyIH with inner | ⟨lower, below, found⟩
      · refine tailIH.imp_left fun outer => .nonterminal (free.imp_right fun notOpen => ?_)
          member inner outer
        simpa [same] using notOpen
      · exact .inr ⟨lower, Nat.lt_succ_of_lt below, found⟩

/-- Of the derivations of a nonterminal on a span, one of no greater height does not use the span
again. -/
theorem Avoids.uncycled {height : Nat} {index start stop : Nat} {alternative : List Symbol}
    (member : alternative ∈ rules.alternatives index)
    (avoids : rules.Avoids tokens opened height alternative start stop) :
    ∃ lower ≤ height, ∃ chosen ∈ rules.alternatives index,
      rules.Avoids tokens ((index, start, stop) :: opened) lower chosen start stop := by
  -- An inner derivation of the same span is lower, so taking it instead comes to an end.
  induction height using Nat.strongRecOn generalizing alternative with
  | ind height ih =>
    rcases avoids.openNext index start stop with clear | ⟨lower, below, inner, found, again⟩
    · exact ⟨height, Nat.le_refl _, alternative, member, clear⟩
    · obtain ⟨least, bound, chosen, listed, clear⟩ := ih lower below found again
      exact ⟨least, by omega, chosen, listed, clear⟩

/-- A clear derivation ends no earlier than it begins. -/
theorem Clear.le {symbols : List Symbol} {start stop : Nat}
    (clear : rules.Clear tokens opened symbols start stop) : start ≤ stop := by
  induction clear with
  | nil => exact Nat.le_refl _
  | terminal _ _ _ ih => omega
  | nonterminal _ _ _ _ _ bodyLe tailLe => exact Nat.le_trans bodyLe tailLe
  | starEnd _ _ ih => exact ih
  | starItem _ _ _ _ firstLe tailLe => exact Nat.le_trans firstLe tailLe

/-- Clear derivations of adjacent spans make one of both. -/
theorem Clear.append {first others : List Symbol} {start split stop : Nat}
    (head : rules.Clear tokens opened first start split)
    (tail : rules.Clear tokens opened others split stop) :
    rules.Clear tokens opened (first ++ others) start stop := by
  induction head with
  | nil => exact tail
  | terminal found matched _ ih => exact .terminal found matched (ih tail)
  | nonterminal plain free member body _ _ ih => exact .nonterminal plain free member body (ih tail)
  | starEnd star _ ih => exact .starEnd star (ih tail)
  | starItem star below item _ _ ih => exact .starItem star below item (ih tail)

/-- A clear derivation of symbols divides into one of the first and one of the others. -/
theorem Clear.divide {symbol : Symbol} {rest : List Symbol} {start stop : Nat}
    (clear : rules.Clear tokens opened (symbol :: rest) start stop) :
    ∃ split, rules.Clear tokens opened [symbol] start split ∧
      rules.Clear tokens opened rest split stop := by
  generalize same : symbol :: rest = symbols at clear
  induction clear generalizing rest with
  | nil => contradiction
  | terminal found matched tail _ =>
    cases same
    exact ⟨_, .terminal found matched (.nil _ _), tail⟩
  | nonterminal plain free member body tail _ _ =>
    cases same
    exact ⟨_, .nonterminal plain free member body (.nil _ _), tail⟩
  | starEnd star tail _ =>
    cases same
    exact ⟨_, .starEnd star (.nil _ _), tail⟩
  | starItem star below first _ _ ih =>
    cases same
    obtain ⟨split, more, tail⟩ := ih rfl
    exact ⟨split, .starItem star below first more, tail⟩

/-- A nonterminal with a clear derivation that is no star is not open on the span. -/
theorem Clear.opens {index start stop : Nat} (plain : ∀ item, rules.label index ≠ .star item)
    (clear : rules.Clear tokens opened [.nonterminal index] start stop) :
    (index, start, stop) ∉ opened ∧ ∃ alternative ∈ rules.alternatives index,
      rules.Clear tokens ((index, start, stop) :: opened) alternative start stop := by
  cases clear with
  | terminal _ matched => cases matched
  | nonterminal _ free member body tail =>
    cases tail
    exact ⟨free, _, member, body⟩
  | starEnd star => exact absurd star (plain _)
  | starItem star => exact absurd star (plain _)

/-- One item of a star, which is not empty, in a clear derivation. -/
def ClearItem (rules : Rules) (tokens : List String) (opened : List Span) (item : Symbol)
    (start stop : Nat) : Prop :=
  start < stop ∧ rules.Clear tokens opened [item] start stop

/-- A star is derived by a chain of items. -/
theorem Clear.chain {index : Nat} {item : Symbol} (star : rules.label index = .star item)
    {start stop : Nat} (clear : rules.Clear tokens opened [.nonterminal index] start stop) :
    Relation.ReflTransGen (rules.ClearItem tokens opened item) start stop := by
  generalize same : [Symbol.nonterminal index] = symbols at clear
  induction clear with
  | nil => contradiction
  | terminal _ matched =>
    cases same
    cases matched
  | nonterminal plain =>
    cases same
    exact absurd star (plain item)
  | starEnd _ tail _ =>
    cases same
    cases tail
    exact .refl
  | starItem other below first _ _ ih =>
    cases same
    cases star.symm.trans other
    exact .head ⟨below, first⟩ (ih rfl)

/-- A star goes on with one more item after it. -/
theorem Clear.snoc {index : Nat} {item : Symbol} (star : rules.label index = .star item)
    {start split stop : Nat} (clear : rules.Clear tokens opened [.nonterminal index] start split)
    (last : rules.Clear tokens opened [item] split stop) :
    rules.Clear tokens opened [.nonterminal index] start stop := by
  by_cases empty : split = stop
  · exact empty ▸ clear
  · have below : split < stop := Nat.lt_of_le_of_ne last.le empty
    generalize same : [Symbol.nonterminal index] = symbols at clear
    induction clear with
    | nil => contradiction
    | terminal _ matched =>
      cases same
      cases matched
    | nonterminal plain =>
      cases same
      exact absurd star (plain item)
    | starEnd other tail _ =>
      cases same
      cases tail
      exact .starItem star below last (.starEnd star (.nil _ _))
    | starItem other earlier first _ _ ih =>
      cases same
      cases star.symm.trans other
      exact .starItem star earlier first (ih last empty below rfl)

/-- A derivation that avoids the open spans can be made clear of them. -/
theorem Avoids.clear (shaped : rules.StarShaped) {height : Nat} {symbols : List Symbol}
    {start stop : Nat} (avoids : rules.Avoids tokens opened height symbols start stop) :
    rules.Clear tokens opened symbols start stop := by
  induction height using Nat.strongRecOn generalizing opened symbols start stop with
  | ind height lowerIH =>
    induction symbols generalizing start with
    | nil =>
      cases avoids
      exact .nil _ _
    | cons symbol rest tailIH =>
      cases avoids with
      | terminal found matched tail => exact .terminal found matched (tailIH tail)
      | @nonterminal height index alternative _ _ split _ free member body tail =>
        by_cases starred : ∃ item, rules.label index = .star item
        · -- a star reads itself and one more item, so its items come out in their order
          obtain ⟨item, star⟩ := starred
          have outer := tailIH tail
          rw [shaped.alternatives star] at member
          rcases List.mem_cons.1 member with rfl | none_left
          · obtain ⟨middle, before, last⟩ := (lowerIH height (Nat.lt_succ_self _) body).divide
            exact (before.snoc star last).append outer
          · obtain rfl := List.mem_singleton.1 none_left
            cases body
            exact .starEnd star outer
        · obtain ⟨lower, bound, chosen, listed, inner⟩ := Avoids.uncycled member body
          exact .nonterminal (fun item star => starred ⟨item, star⟩)
            (free.resolve_left starred) listed (lowerIH lower (by omega) inner) (tailIH tail)

/-- One item of a star, which is not empty. -/
def ItemSpan (rules : Rules) (tokens : List String) (item : Symbol) (start stop : Nat) : Prop :=
  start < stop ∧ rules.Spans tokens [item] start stop

/-- A chain of items ends no earlier than it begins. -/
theorem chain_le {item : Symbol} {start stop : Nat}
    (chain : Relation.ReflTransGen (rules.ItemSpan tokens item) start stop) : start ≤ stop := by
  induction chain with
  | refl => exact Nat.le_refl _
  | tail _ step ih => exact Nat.le_trans ih (Nat.le_of_lt step.1)

/-- The derivations of a star and what follows it are chains of items and what follows. -/
theorem Spans.star_chain (shaped : rules.StarShaped) {index : Nat} {item : Symbol}
    (star : rules.label index = .star item) {rest : List Symbol} {start stop : Nat}
    (spans : rules.Spans tokens (.nonterminal index :: rest) start stop) :
    ∃ split, Relation.ReflTransGen (rules.ItemSpan tokens item) start split ∧
      rules.Spans tokens rest split stop := by
  generalize same : Symbol.nonterminal index :: rest = symbols at spans
  induction spans generalizing rest with
  | nil => contradiction
  | terminal _ matched =>
    cases same
    cases matched
  | @nonterminal _ alternative _ start split stop member body tail bodyIH _ =>
    cases same
    rw [shaped.alternatives star] at member
    rcases List.mem_cons.1 member with rfl | none_left
    · obtain ⟨middle, chain, last⟩ := bodyIH rfl
      refine ⟨split, ?_, tail⟩
      by_cases empty : middle = split
      · exact empty ▸ chain
      · exact chain.tail ⟨Nat.lt_of_le_of_ne last.le empty, last⟩
    · obtain rfl := List.mem_singleton.1 none_left
      cases body
      exact ⟨start, .refl, tail⟩

/-- A star derives exactly the spans of chains of its items. -/
theorem spans_star_iff (shaped : rules.StarShaped) {index : Nat} {item : Symbol}
    (star : rules.label index = .star item) {start stop : Nat} :
    rules.Spans tokens [.nonterminal index] start stop ↔
      Relation.ReflTransGen (rules.ItemSpan tokens item) start stop := by
  constructor
  · intro spans
    obtain ⟨split, chain, tail⟩ := spans.star_chain shaped star
    exact spans_nil_iff.1 tail ▸ chain
  · intro chain
    induction chain with
    | refl =>
      exact spans_nonterminal_iff.2 ⟨[], by simp [shaped.alternatives star], .nil _⟩
    | tail _ step ih =>
      exact spans_nonterminal_iff.2
        ⟨[.nonterminal index, item], by simp [shaped.alternatives star], ih.append step.2⟩

/-- A clear derivation is one. -/
theorem Clear.spans (shaped : rules.StarShaped) {symbols : List Symbol} {start stop : Nat}
    (clear : rules.Clear tokens opened symbols start stop) :
    rules.Spans tokens symbols start stop := by
  induction clear with
  | nil => exact .nil _
  | terminal found matched _ ih => exact .terminal found matched ih
  | nonterminal _ _ member _ _ bodyIH tailIH => exact .nonterminal member bodyIH tailIH
  | @starEnd _ index _ _ _ _ star _ ih =>
    have member : [] ∈ rules.alternatives index := by simp [shaped.alternatives star]
    exact .nonterminal member (.nil _) ih
  | starItem star below _ _ firstIH tailIH =>
    obtain ⟨split, chain, tail⟩ := tailIH.star_chain shaped star
    exact ((spans_star_iff shaped star).2 (.head ⟨below, firstIH⟩ chain)).append tail

end Rules

end CommandGrammar
