import Mathlib
import CommandGrammar.Chart.Language

/-!
# Derivations by place

A chart works with places between tokens instead of sequences of tokens. The relation
here says that symbols, one after the other, derive the tokens between two places; it
agrees with the language of flat rules on the tokens that stand there. Beside it stands
what makes a nonterminal worth deriving at a place: it is the start, or a derivation
begun earlier waits for it there.
-/

namespace CommandGrammar

namespace Rules

/-- Symbols, one after the other, derive the tokens between two places. -/
inductive Spans (rules : Rules) (tokens : List String) : List Symbol → Nat → Nat → Prop where
  /-- No symbol derives no token. -/
  | nil (place : Nat) : Spans rules tokens [] place place
  /-- A terminal derives a token that it matches. -/
  | terminal {symbol : Symbol} {token : String} {kind : LeafKind} {rest : List Symbol}
      {start stop : Nat} (found : tokens[start]? = some token)
      (matched : symbol.matches? token = some kind)
      (tail : Spans rules tokens rest (start + 1) stop) :
      Spans rules tokens (symbol :: rest) start stop
  /-- A nonterminal derives what one of its alternatives derives. -/
  | nonterminal {index : Nat} {alternative rest : List Symbol} {start split stop : Nat}
      (member : alternative ∈ rules.alternatives index)
      (body : Spans rules tokens alternative start split)
      (tail : Spans rules tokens rest split stop) :
      Spans rules tokens (.nonterminal index :: rest) start stop

/-- A nonterminal is awaited at a place: it is the start at the first place, or the next symbol
of an alternative of an awaited nonterminal after the symbols before it have derived the tokens
up to the place. -/
inductive Awaited (rules : Rules) (tokens : List String) : Nat → Nat → Prop where
  /-- The start is awaited at the first place. -/
  | start : Awaited rules tokens rules.start 0
  /-- So is what follows in a derivation that was begun. -/
  | inside {head origin place index : Nat} {before rest : List Symbol}
      (begun : Awaited rules tokens head origin)
      (member : before ++ .nonterminal index :: rest ∈ rules.alternatives head)
      (read : Spans rules tokens before origin place) : Awaited rules tokens index place

variable {rules : Rules} {tokens : List String}

/-- A nonterminal with an alternative is one of the rules. -/
theorem lt_size_of_mem_alternatives {index : Nat} {alternative : List Symbol}
    (member : alternative ∈ rules.alternatives index) : index < rules.size := by
  unfold Rules.alternatives at member
  split at member
  · next found => exact (Array.getElem?_eq_some_iff.1 found).1
  · cases member

/-- No symbol derives exactly the empty spans. -/
theorem spans_nil_iff {start stop : Nat} : rules.Spans tokens [] start stop ↔ start = stop := by
  constructor
  · rintro ⟨⟩
    rfl
  · rintro rfl
    exact .nil start

/-- A derivation ends no earlier than it begins. -/
theorem Spans.le {symbols : List Symbol} {start stop : Nat}
    (spans : rules.Spans tokens symbols start stop) : start ≤ stop := by
  induction spans with
  | nil => exact Nat.le_refl _
  | terminal _ _ _ ih => omega
  | nonterminal _ _ _ bodyLe tailLe => exact Nat.le_trans bodyLe tailLe

/-- A derivation that begins among the tokens ends among them. -/
theorem Spans.le_length {symbols : List Symbol} {start stop : Nat}
    (spans : rules.Spans tokens symbols start stop) (inside : start ≤ tokens.length) :
    stop ≤ tokens.length := by
  induction spans with
  | nil => exact inside
  | terminal found _ _ ih =>
    obtain ⟨below, _⟩ := List.getElem?_eq_some_iff.1 found
    exact ih below
  | nonterminal _ _ _ bodyIH tailIH => exact tailIH (bodyIH inside)

/-- Derivations of adjacent spans make one of both. -/
theorem Spans.append {first others : List Symbol} {start split stop : Nat}
    (head : rules.Spans tokens first start split) (tail : rules.Spans tokens others split stop) :
    rules.Spans tokens (first ++ others) start stop := by
  induction head with
  | nil => exact tail
  | terminal found matched _ ih => exact .terminal found matched (ih tail)
  | nonterminal member body _ _ ih => exact .nonterminal member body (ih tail)

/-- A span of several symbols divides into one of the first symbols and one of the others. -/
theorem spans_append_iff {first others : List Symbol} {start stop : Nat} :
    rules.Spans tokens (first ++ others) start stop ↔
      ∃ split, rules.Spans tokens first start split ∧ rules.Spans tokens others split stop := by
  constructor
  · intro spans
    induction first generalizing start with
    | nil => exact ⟨start, .nil start, spans⟩
    | cons symbol rest ih =>
      cases spans with
      | terminal found matched tail =>
        obtain ⟨split, head, rest⟩ := ih tail
        exact ⟨split, .terminal found matched head, rest⟩
      | nonterminal member body tail =>
        obtain ⟨split, head, rest⟩ := ih tail
        exact ⟨split, .nonterminal member body head, rest⟩
  · rintro ⟨split, head, tail⟩
    exact head.append tail

/-- A span of symbols divides into one of the first and one of the others. -/
theorem spans_cons_iff {symbol : Symbol} {rest : List Symbol} {start stop : Nat} :
    rules.Spans tokens (symbol :: rest) start stop ↔
      ∃ split, rules.Spans tokens [symbol] start split ∧ rules.Spans tokens rest split stop := by
  change rules.Spans tokens ([symbol] ++ rest) start stop ↔ _
  exact spans_append_iff

/-- A nonterminal derives exactly the spans that its alternatives derive. -/
theorem spans_nonterminal_iff {index start stop : Nat} :
    rules.Spans tokens [.nonterminal index] start stop ↔
      ∃ alternative ∈ rules.alternatives index, rules.Spans tokens alternative start stop := by
  constructor
  · intro spans
    cases spans with
    | terminal _ matched => cases matched
    | nonterminal member body tail =>
      cases spans_nil_iff.1 tail
      exact ⟨_, member, body⟩
  · rintro ⟨alternative, member, body⟩
    exact .nonterminal member body (.nil stop)

/-- A terminal derives exactly the single tokens that it matches. -/
theorem spans_terminal_iff {symbol : Symbol} (terminal : ∀ index, symbol ≠ .nonterminal index)
    {start stop : Nat} :
    rules.Spans tokens [symbol] start stop ↔
      stop = start + 1 ∧ ∃ token kind, tokens[start]? = some token ∧
        symbol.matches? token = some kind := by
  constructor
  · intro spans
    cases spans with
    | terminal found matched tail =>
      cases spans_nil_iff.1 tail
      exact ⟨rfl, _, _, found, matched⟩
    | nonterminal => exact absurd rfl (terminal _)
  · rintro ⟨rfl, token, kind, found, matched⟩
    exact .terminal found matched (.nil _)

/-- What is derived between two places is derived from the tokens that stand there. -/
theorem Spans.derives {symbols : List Symbol} {start stop : Nat}
    (spans : rules.Spans tokens symbols start stop) :
    rules.Derives symbols (tokens.extract start stop) := by
  induction spans with
  | nil place => simpa [List.extract_eq_take_drop] using Derives.nil
  | @terminal symbol token kind rest start stop found matched tail ih =>
    obtain ⟨below, rfl⟩ := List.getElem?_eq_some_iff.1 found
    have later := tail.le
    have first : tokens.extract start stop = tokens[start] :: tokens.extract (start + 1) stop := by
      rw [List.extract_eq_take_drop, List.extract_eq_take_drop, List.drop_eq_getElem_cons below,
        show stop - start = (stop - (start + 1)) + 1 by omega, List.take_succ_cons]
    rw [first]
    exact .terminal matched ih
  | @nonterminal index alternative rest start split stop member body tail bodyIH tailIH =>
    have divided : tokens.extract start stop =
        tokens.extract start split ++ tokens.extract split stop := by
      have first := body.le
      have second := tail.le
      rw [List.extract_eq_take_drop, List.extract_eq_take_drop, List.extract_eq_take_drop,
        show stop - start = (split - start) + (stop - split) by omega, List.take_add,
        List.drop_drop, show start + (split - start) = split by omega]
    rw [divided]
    exact .nonterminal member bodyIH tailIH

/-- A sequence of tokens that is derived is derived wherever it stands. -/
theorem Derives.spans {symbols : List Symbol} {part after : List String} {start : Nat}
    (derived : rules.Derives symbols part) (stands : tokens.drop start = part ++ after) :
    rules.Spans tokens symbols start (start + part.length) := by
  induction derived generalizing start after with
  | nil => exact .nil start
  | @terminal symbol token kind rest others matched tail ih =>
    have next : tokens.drop (start + 1) = others ++ after := by
      rw [← List.drop_drop, stands]
      rfl
    have found : tokens[start]? = some token := by
      have first := congrArg (·[0]?) stands
      simpa using first
    have shifted := ih next
    rw [show start + 1 + others.length = start + (others.length + 1) by omega] at shifted
    exact .terminal found matched shifted
  | @nonterminal index alternative rest first others member body tail bodyIH tailIH =>
    have here : tokens.drop start = first ++ (others ++ after) := by rw [stands, List.append_assoc]
    have inner := bodyIH here
    have next : tokens.drop (start + first.length) = others ++ after := by
      rw [← List.drop_drop, stands, List.append_assoc, List.drop_left]
    have outer := tailIH next
    rw [Nat.add_assoc, ← List.length_append] at outer
    exact .nonterminal member inner outer

/-- Symbols derive the tokens between two places exactly if they derive the sequence of them. -/
theorem spans_iff_derives {symbols : List Symbol} {start stop : Nat} (ordered : start ≤ stop)
    (inside : stop ≤ tokens.length) :
    rules.Spans tokens symbols start stop ↔
      rules.Derives symbols (tokens.extract start stop) := by
  constructor
  · exact Spans.derives
  · intro derived
    have size : (tokens.extract start stop).length = stop - start := by
      simp only [List.extract_eq_take_drop, List.length_take, List.length_drop]
      omega
    have stands : tokens.drop start = tokens.extract start stop ++ tokens.drop stop := by
      have parts := List.take_append_drop (stop - start) (tokens.drop start)
      rw [List.drop_drop, show start + (stop - start) = stop by omega] at parts
      rw [List.extract_eq_take_drop, parts]
    have spans := derived.spans stands
    rwa [size, show start + (stop - start) = stop by omega] at spans

/-- Symbols derive all tokens exactly if they span from the first place to the last. -/
theorem spans_whole_iff {symbols : List Symbol} :
    rules.Spans tokens symbols 0 tokens.length ↔ rules.Derives symbols tokens := by
  have whole : tokens.extract 0 tokens.length = tokens := by simp [List.extract_eq_take_drop]
  rw [spans_iff_derives (Nat.zero_le _) (Nat.le_refl _), whole]

/-- Symbols that span no token derive the empty sequence. -/
theorem Spans.derives_nil {symbols : List Symbol} {place : Nat}
    (spans : rules.Spans tokens symbols place place) : rules.Derives symbols [] := by
  simpa [List.extract_eq_take_drop] using spans.derives

/-- Symbols that derive the empty sequence span no token at any place. -/
theorem Derives.spans_nil {symbols : List Symbol} (derived : rules.Derives symbols [])
    (place : Nat) : rules.Spans tokens symbols place place := by
  have spans := derived.spans (List.nil_append (tokens.drop place)).symm
  simpa using spans

/-- A nonterminal that is awaited is awaited among the tokens. -/
theorem Awaited.le_length {index place : Nat} (awaited : rules.Awaited tokens index place) :
    place ≤ tokens.length := by
  induction awaited with
  | start => exact Nat.zero_le _
  | inside _ _ read ih => exact read.le_length ih

end Rules

end CommandGrammar
