import CommandGrammar.Grammar

/-!
# The language of a grammar

An expression derives sequences of tokens. The relation is the least one that the
productions allow: every derivation is finite, so a rule that only leads back to
itself derives nothing. The lemmas turn the derivations of each kind of expression
into statements about its parts.
-/

namespace CommandGrammar

/-- The sequences of tokens that an expression derives. -/
inductive Grammar.Derives (grammar : Grammar) : Expr → List String → Prop where
  /-- A literal derives its text. -/
  | literal (text : String) : Derives grammar (.literal text) [text]
  /-- The value terminal derives any one token. -/
  | value (token : String) : Derives grammar .value [token]
  /-- A rule derives what its production derives. -/
  | rule {id : NodeId} {production : Production} {tokens : List String}
      (found : grammar.production? id = some production)
      (body : Derives grammar production.expr tokens) : Derives grammar (.rule id) tokens
  /-- The empty sequence derives no token. -/
  | seqNil : Derives grammar (.seq []) []
  /-- A sequence derives what its items derive, one after the other. -/
  | seqCons {item : Expr} {rest : List Expr} {first others : List String}
      (head : Derives grammar item first) (tail : Derives grammar (.seq rest) others) :
      Derives grammar (.seq (item :: rest)) (first ++ others)
  /-- A choice derives what one of its items derives. -/
  | alt {items : List Expr} {item : Expr} {tokens : List String} (member : item ∈ items)
      (chosen : Derives grammar item tokens) : Derives grammar (.alt items) tokens
  /-- An option may be left out. -/
  | absent (inner : Expr) : Derives grammar (.optional inner) []
  /-- An option derives what it holds. -/
  | present {inner : Expr} {tokens : List String} (body : Derives grammar inner tokens) :
      Derives grammar (.optional inner) tokens
  /-- A repetition derives parts whose number is within its bounds. -/
  | repetition {inner : Expr} {min : Nat} {max : Option Nat} (parts : List (List String))
      (least : min ≤ parts.length) (most : ∀ bound ∈ max, parts.length ≤ bound)
      (each : ∀ part ∈ parts, Derives grammar inner part) :
      Derives grammar (.repetition inner min max) parts.flatten

namespace Grammar

/-- The sequences of tokens that the start node derives. -/
def Accepts (grammar : Grammar) (tokens : List String) : Prop :=
  grammar.Derives (.rule grammar.start) tokens

variable {grammar : Grammar}

/-- A literal derives its text and nothing else. -/
theorem derives_literal_iff {text : String} {tokens : List String} :
    grammar.Derives (.literal text) tokens ↔ tokens = [text] := by
  constructor
  · rintro ⟨⟩
    rfl
  · rintro rfl
    exact .literal text

/-- The value terminal derives the sequences of one token. -/
theorem derives_value_iff {tokens : List String} :
    grammar.Derives .value tokens ↔ ∃ token, tokens = [token] := by
  constructor
  · rintro ⟨⟩
    exact ⟨_, rfl⟩
  · rintro ⟨token, rfl⟩
    exact .value token

/-- A rule derives exactly what its production derives. -/
theorem derives_rule_iff {id : NodeId} {tokens : List String} :
    grammar.Derives (.rule id) tokens ↔
      ∃ production, grammar.production? id = some production ∧
        grammar.Derives production.expr tokens := by
  constructor
  · rintro ⟨⟩
    exact ⟨_, by assumption, by assumption⟩
  · rintro ⟨production, found, body⟩
    exact .rule found body

/-- The empty sequence derives no token. -/
theorem derives_seq_nil_iff {tokens : List String} :
    grammar.Derives (.seq []) tokens ↔ tokens = [] := by
  constructor
  · rintro ⟨⟩
    rfl
  · rintro rfl
    exact .seqNil

/-- The tokens of a sequence divide into those of its first item and those of the others. -/
theorem derives_seq_cons_iff {item : Expr} {rest : List Expr} {tokens : List String} :
    grammar.Derives (.seq (item :: rest)) tokens ↔
      ∃ first others, tokens = first ++ others ∧ grammar.Derives item first ∧
        grammar.Derives (.seq rest) others := by
  constructor
  · rintro ⟨⟩
    exact ⟨_, _, rfl, by assumption, by assumption⟩
  · rintro ⟨first, others, rfl, head, tail⟩
    exact .seqCons head tail

/-- A choice derives what some item of it derives. -/
theorem derives_alt_iff {items : List Expr} {tokens : List String} :
    grammar.Derives (.alt items) tokens ↔
      ∃ item ∈ items, grammar.Derives item tokens := by
  constructor
  · rintro ⟨⟩
    exact ⟨_, by assumption, by assumption⟩
  · rintro ⟨item, member, chosen⟩
    exact .alt member chosen

/-- An option derives nothing or what it holds. -/
theorem derives_optional_iff {inner : Expr} {tokens : List String} :
    grammar.Derives (.optional inner) tokens ↔
      tokens = [] ∨ grammar.Derives inner tokens := by
  constructor
  · intro derived
    cases derived with
    | absent => exact .inl rfl
    | present body => exact .inr body
  · rintro (rfl | body)
    · exact .absent inner
    · exact .present body

/-- A repetition derives exactly the sequences that divide into as many parts as it allows. -/
theorem derives_repetition_iff {inner : Expr} {min : Nat} {max : Option Nat}
    {tokens : List String} :
    grammar.Derives (.repetition inner min max) tokens ↔
      ∃ parts : List (List String), tokens = parts.flatten ∧ min ≤ parts.length ∧
        (∀ bound ∈ max, parts.length ≤ bound) ∧ ∀ part ∈ parts, grammar.Derives inner part := by
  constructor
  · intro derived
    cases derived with
    | repetition parts least most each => exact ⟨parts, rfl, least, most, each⟩
  · rintro ⟨parts, rfl, least, most, each⟩
    exact .repetition parts least most each

/-- A choice of one item derives what the item derives. -/
theorem derives_choice_iff {items : List Expr} {tokens : List String} :
    grammar.Derives (Expr.choice items) tokens ↔
      ∃ item ∈ items, grammar.Derives item tokens := by
  unfold Expr.choice
  split
  · simp
  · exact derives_alt_iff

end Grammar

end CommandGrammar
