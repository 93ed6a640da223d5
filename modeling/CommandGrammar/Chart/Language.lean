import CommandGrammar.Chart.Rules

/-!
# The language of flat rules

Symbols derive sequences of tokens: a terminal any token that it matches, and a
nonterminal what one of its alternatives derives. What a list of symbols derives is
what its parts derive, one after the other.
-/

namespace CommandGrammar

/-- The sequences of tokens that symbols, one after the other, derive. -/
inductive Rules.Derives (rules : Rules) : List Symbol → List String → Prop where
  /-- No symbol derives no token. -/
  | nil : Derives rules [] []
  /-- A terminal derives a token that it matches. -/
  | terminal {symbol : Symbol} {token : String} {kind : LeafKind} {rest : List Symbol}
      {others : List String} (matched : symbol.matches? token = some kind)
      (tail : Derives rules rest others) : Derives rules (symbol :: rest) (token :: others)
  /-- A nonterminal derives what one of its alternatives derives. -/
  | nonterminal {index : Nat} {alternative rest : List Symbol} {first others : List String}
      (member : alternative ∈ rules.alternatives index)
      (body : Derives rules alternative first) (tail : Derives rules rest others) :
      Derives rules (.nonterminal index :: rest) (first ++ others)

namespace Rules

variable {rules : Rules}

/-- No symbol derives no token. -/
theorem derives_nil_iff {tokens : List String} : rules.Derives [] tokens ↔ tokens = [] := by
  constructor
  · rintro ⟨⟩
    rfl
  · rintro rfl
    exact .nil

/-- What symbols derive, followed by what other symbols derive, is derived by all of them. -/
theorem Derives.append {first others : List Symbol} {before after : List String}
    (head : rules.Derives first before) (tail : rules.Derives others after) :
    rules.Derives (first ++ others) (before ++ after) := by
  induction head with
  | nil => exact tail
  | terminal matched _ ih => exact .terminal matched ih
  | nonterminal member body _ _ ih =>
    rw [List.append_assoc]
    exact .nonterminal member body ih

/-- A nonterminal derives exactly what its alternatives derive. -/
theorem derives_nonterminal_iff {index : Nat} {tokens : List String} :
    rules.Derives [.nonterminal index] tokens ↔
      ∃ alternative ∈ rules.alternatives index, rules.Derives alternative tokens := by
  constructor
  · intro derived
    cases derived with
    | terminal matched => cases matched
    | nonterminal member body tail =>
      cases derives_nil_iff.1 tail
      exact ⟨_, member, by simpa using body⟩
  · rintro ⟨alternative, member, body⟩
    simpa using Derives.nonterminal member body .nil

end Rules

end CommandGrammar
