import Mathlib
import CommandGrammar.Proofs.Chart.Ends

/-!
# What can follow at a place

If every alternative yields something, whatever waits at a place can be completed to what
the start yields: the tokens before the place, what the waiting symbols yield, and more.
Conversely, of anything that the start yields and that begins with the tokens before a
place, the next leaf has a terminal that waits there. So the terminals that wait at a place
are exactly those that can come next.
-/

namespace CommandGrammar

/-- The sequences of leaves that symbols, one after the other, yield: the tokens that they derive,
each with the kind of the terminal that it matches. -/
inductive Rules.Yields (rules : Rules) : List Symbol → List Leaf → Prop where
  /-- No symbol yields no leaf. -/
  | nil : Yields rules [] []
  /-- A terminal yields a leaf of its kind. -/
  | terminal {symbol : Symbol} {leaf : Leaf} {rest : List Symbol} {others : List Leaf}
      (matched : symbol.matches? leaf.text = some leaf.kind) (tail : Yields rules rest others) :
      Yields rules (symbol :: rest) (leaf :: others)
  /-- A nonterminal yields what one of its alternatives yields. -/
  | nonterminal {index : Nat} {alternative rest : List Symbol} {first others : List Leaf}
      (member : alternative ∈ rules.alternatives index) (body : Yields rules alternative first)
      (tail : Yields rules rest others) : Yields rules (.nonterminal index :: rest) (first ++ others)

namespace Rules

variable {rules : Rules} {tokens : List String} {symbols : List Symbol} {place : Nat}

/-- What symbols yield, followed by what other symbols yield, is yielded by all of them. -/
theorem Yields.append {first others : List Symbol} {before after : List Leaf}
    (head : rules.Yields first before) (tail : rules.Yields others after) :
    rules.Yields (first ++ others) (before ++ after) := by
  induction head with
  | nil => exact tail
  | terminal matched _ ih => exact .terminal matched ih
  | nonterminal member body _ _ ih =>
    rw [List.append_assoc]
    exact .nonterminal member body ih

/-- The leaves of symbols divide into those of the first ones and those of the others. -/
theorem yields_append_iff {first others : List Symbol} {leaves : List Leaf} :
    rules.Yields (first ++ others) leaves ↔
      ∃ before after, leaves = before ++ after ∧ rules.Yields first before ∧
        rules.Yields others after := by
  constructor
  · intro yields
    induction first generalizing leaves with
    | nil => exact ⟨[], leaves, rfl, .nil, yields⟩
    | cons symbol rest ih =>
      cases yields with
      | terminal matched tail =>
        obtain ⟨before, after, rfl, head, rest⟩ := ih tail
        exact ⟨_ :: before, after, rfl, .terminal matched head, rest⟩
      | nonterminal member body tail =>
        obtain ⟨before, after, rfl, head, rest⟩ := ih tail
        exact ⟨_ ++ before, after, (List.append_assoc ..).symm, .nonterminal member body head, rest⟩
  · rintro ⟨before, after, rfl, head, tail⟩
    exact head.append tail

/-- A nonterminal yields exactly what its alternatives yield. -/
theorem yields_nonterminal_iff {index : Nat} {leaves : List Leaf} :
    rules.Yields [.nonterminal index] leaves ↔
      ∃ alternative ∈ rules.alternatives index, rules.Yields alternative leaves := by
  constructor
  · intro yields
    cases yields with
    | terminal matched => cases matched
    | nonterminal member body tail =>
      cases tail
      exact ⟨_, member, by simpa using body⟩
  · rintro ⟨alternative, member, body⟩
    simpa using Yields.nonterminal member body .nil

/-- Symbols derive the tokens of the leaves that they yield. -/
theorem Yields.derives {leaves : List Leaf} (yields : rules.Yields symbols leaves) :
    rules.Derives symbols (leaves.map Leaf.text) := by
  induction yields with
  | nil => exact .nil
  | terminal matched _ ih => exact .terminal matched ih
  | nonterminal member _ _ bodyIH tailIH =>
    rw [List.map_append]
    exact .nonterminal member bodyIH tailIH

/-- Tokens that symbols derive are those of leaves that they yield. -/
theorem Derives.exists_yields {part : List String} (derived : rules.Derives symbols part) :
    ∃ leaves, rules.Yields symbols leaves ∧ leaves.map Leaf.text = part := by
  induction derived with
  | nil => exact ⟨[], .nil, rfl⟩
  | @terminal symbol token kind rest others matched _ ih =>
    obtain ⟨leaves, tail, rfl⟩ := ih
    have first : symbol.matches? (Leaf.mk kind token 0).text = some kind := matched
    exact ⟨⟨kind, token, 0⟩ :: leaves, .terminal first tail, rfl⟩
  | nonterminal member _ _ bodyIH tailIH =>
    obtain ⟨first, body, rfl⟩ := bodyIH
    obtain ⟨others, tail, rfl⟩ := tailIH
    exact ⟨first ++ others, .nonterminal member body tail, List.map_append⟩

/-! ## From what waits to what can come -/

/-- Every alternative yields something. -/
def IsProductive (rules : Rules) : Prop :=
  ∀ index, ∀ alternative ∈ rules.alternatives index, ∃ leaves, rules.Yields alternative leaves

/-- Whatever symbols yield at a place can be completed to what the start yields, with the tokens
before the place in front. -/
def Completes (rules : Rules) (tokens : List String) (symbols : List Symbol) (place : Nat) : Prop :=
  ∀ leaves, rules.Yields symbols leaves → ∃ first last, first.map Leaf.text = tokens.take place ∧
    rules.Yields [.nonterminal rules.start] (first ++ (leaves ++ last))

/-- Symbols are completed inside the nonterminal that they belong to, after what was read of it. -/
theorem Completes.inside {head origin : Nat} {before : List Symbol}
    (completes : rules.Completes tokens [.nonterminal head] origin)
    (member : before ++ symbols ∈ rules.alternatives head)
    (read : rules.Spans tokens before origin place) : rules.Completes tokens symbols place := by
  intro leaves yields
  obtain ⟨done, first, texts⟩ := read.derives.exists_yields
  have whole : rules.Yields [.nonterminal head] (done ++ leaves) :=
    yields_nonterminal_iff.2 ⟨_, member, first.append yields⟩
  obtain ⟨front, last, begins, start⟩ := completes _ whole
  refine ⟨front ++ done, last, ?_, by simpa using start⟩
  have ordered := read.le
  rw [List.map_append, begins, texts, List.extract_eq_take_drop, ← List.take_add,
    Nat.add_sub_cancel' ordered]

/-- The symbols after others are completed wherever all of them are, if the others yield something
there. -/
theorem Completes.first {others : List Symbol} {more : List Leaf}
    (completes : rules.Completes tokens (symbols ++ others) place)
    (yields : rules.Yields others more) : rules.Completes tokens symbols place := by
  intro leaves first
  obtain ⟨front, last, begins, start⟩ := completes _ (first.append yields)
  exact ⟨front, more ++ last, begins, by simpa using start⟩

/-- Whatever an awaited nonterminal yields can be completed. -/
theorem Awaited.completes (productive : rules.IsProductive) {index : Nat}
    (awaited : rules.Awaited tokens index place) :
    rules.Completes tokens [.nonterminal index] place := by
  induction awaited with
  | start =>
    intro leaves yields
    exact ⟨[], [], rfl, by simpa using yields⟩
  | @inside head origin place index before rest begun member read ih =>
    -- What stands after the nonterminal in the alternative yields something too.
    obtain ⟨leaves, yields⟩ := productive head _ member
    obtain ⟨_, _, _, _, tail⟩ := yields_append_iff.1 yields
    obtain ⟨_, more, _, _, others⟩ := (@yields_append_iff rules [_] _ _).1 tail
    have completes : rules.Completes tokens ([.nonterminal index] ++ rest) place :=
      ih.inside member read
    exact completes.first others

/-- Whatever waiting symbols yield can be completed. -/
theorem Waits.completes (productive : rules.IsProductive)
    (waits : rules.Waits tokens symbols place) : rules.Completes tokens symbols place := by
  obtain ⟨head, origin, before, awaited, member, read⟩ := waits
  exact (awaited.completes productive).inside member read

/-- Waiting symbols yield something. -/
theorem Waits.exists_yields (productive : rules.IsProductive)
    (waits : rules.Waits tokens symbols place) : ∃ leaves, rules.Yields symbols leaves := by
  obtain ⟨head, _, before, _, member, _⟩ := waits
  obtain ⟨_, yields⟩ := productive head _ member
  obtain ⟨_, leaves, _, _, last⟩ := yields_append_iff.1 yields
  exact ⟨leaves, last⟩

/-! ## From what can come to what waits -/

/-- Leaves that symbols yield are a span of them wherever their tokens stand. -/
theorem Yields.spans {leaves : List Leaf} {after : List String}
    (yields : rules.Yields symbols leaves)
    (stands : tokens.drop place = leaves.map Leaf.text ++ after) :
    rules.Spans tokens symbols place (place + leaves.length) := by
  have spans := yields.derives.spans stands
  rwa [List.length_map] at spans

end Rules

end CommandGrammar
