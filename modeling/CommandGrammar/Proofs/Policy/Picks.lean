import Mathlib
import CommandGrammar.Tree
import CommandGrammar.Proofs.Policy.Spans

/-!
# Which derivation is picked

Of the derivations of an expression between two places one is picked. From left to right
each item of a sequence or repetition takes the longest span that lets the others derive
the rest; of several alternatives the first one that derives the tokens is taken; an
option is taken if it derives them. This settles the trees: no two are picked.
-/

namespace CommandGrammar

/-- No later place is one where an expression may end and another one go on to the end. -/
def Grammar.IsLongest (grammar : Grammar) (tokens : List String) (item others : Expr)
    (start split stop : Nat) : Prop :=
  ∀ later, split < later →
    ¬ (grammar.Spans tokens item start later ∧ grammar.Spans tokens others later stop)

/-- The trees that are picked for an expression between two places. -/
inductive Grammar.Picks (grammar : Grammar) (tokens : List String) :
    Expr → Nat → Nat → List Tree → Prop where
  /-- A literal is a leaf. -/
  | literal {text : String} {start : Nat} (found : tokens[start]? = some text) :
      Picks grammar tokens (.literal text) start (start + 1) [.leaf ⟨.literal, text, start⟩]
  /-- A value is a leaf. -/
  | value {token : String} {start : Nat} (found : tokens[start]? = some token) :
      Picks grammar tokens .value start (start + 1) [.leaf ⟨.value, token, start⟩]
  /-- A rule is a branch with what is picked for its production. -/
  | rule {id : NodeId} {production : Production} {start stop : Nat} {children : List Tree}
      (found : grammar.production? id = some production)
      (body : Picks grammar tokens production.expr start stop children) :
      Picks grammar tokens (.rule id) start stop [.branch id children]
  /-- For the empty sequence there is nothing to pick. -/
  | seqNil (place : Nat) : Picks grammar tokens (.seq []) place place []
  /-- The first item of a sequence takes the longest span. -/
  | seqCons {item : Expr} {rest : List Expr} {start split stop : Nat} {first others : List Tree}
      (head : Picks grammar tokens item start split first)
      (tail : Picks grammar tokens (.seq rest) split stop others)
      (longest : grammar.IsLongest tokens item (.seq rest) start split stop) :
      Picks grammar tokens (.seq (item :: rest)) start stop (first ++ others)
  /-- The first item of a choice that derives the tokens is taken. -/
  | altFirst {item : Expr} {rest : List Expr} {start stop : Nat} {trees : List Tree}
      (chosen : Picks grammar tokens item start stop trees) :
      Picks grammar tokens (.alt (item :: rest)) start stop trees
  /-- An item of a choice that does not derive the tokens is passed over. -/
  | altLater {item : Expr} {rest : List Expr} {start stop : Nat} {trees : List Tree}
      (passed : ¬ grammar.Spans tokens item start stop)
      (chosen : Picks grammar tokens (.alt rest) start stop trees) :
      Picks grammar tokens (.alt (item :: rest)) start stop trees
  /-- An option that does not derive the tokens is left out. -/
  | absent {inner : Expr} {place : Nat} (passed : ¬ grammar.Spans tokens inner place place) :
      Picks grammar tokens (.optional inner) place place []
  /-- An option that derives the tokens is taken. -/
  | present {inner : Expr} {start stop : Nat} {trees : List Tree}
      (body : Picks grammar tokens inner start stop trees) :
      Picks grammar tokens (.optional inner) start stop trees
  /-- A repetition ends at the end. -/
  | repetitionEnd (inner : Expr) (max : Option Nat) (place : Nat) :
      Picks grammar tokens (.repetition inner 0 max) place place []
  /-- The first item of a repetition takes the longest span. -/
  | repetitionItem {inner : Expr} {min : Nat} {max : Option Nat} {start split stop : Nat}
      {first others : List Tree} (more : max ≠ some 0) (below : start < split)
      (head : Picks grammar tokens inner start split first)
      (tail : Picks grammar tokens (.repetition inner (min - 1) (max.map (· - 1))) split stop
        others)
      (longest : grammar.IsLongest tokens inner (.repetition inner (min - 1) (max.map (· - 1)))
        start split stop) :
      Picks grammar tokens (.repetition inner min max) start stop (first ++ others)

namespace Grammar

variable {grammar : Grammar} {tokens : List String} {expr : Expr} {start stop : Nat}
  {trees : List Tree}

/-- What is picked ends no earlier than it begins. -/
theorem Picks.le (picks : grammar.Picks tokens expr start stop trees) : start ≤ stop := by
  induction picks with
  | literal | value => exact Nat.le_succ _
  | rule _ _ ih => exact ih
  | seqNil => exact Nat.le_refl _
  | seqCons _ _ _ headLe tailLe => exact Nat.le_trans headLe tailLe
  | altFirst _ ih => exact ih
  | altLater _ _ ih => exact ih
  | absent => exact Nat.le_refl _
  | present _ ih => exact ih
  | repetitionEnd => exact Nat.le_refl _
  | repetitionItem _ _ _ _ _ headLe tailLe => exact Nat.le_trans headLe tailLe

/-- Tokens for which trees are picked are derived. -/
theorem Picks.spans (picks : grammar.Picks tokens expr start stop trees)
    (inside : start ≤ tokens.length) : grammar.Spans tokens expr start stop := by
  induction picks with
  | literal found => exact spans_literal_iff.2 ⟨rfl, found⟩
  | value found => exact spans_value_iff.2 ⟨rfl, _, found⟩
  | rule found _ ih => exact (spans_rule_iff found).2 (ih inside)
  | seqNil => exact (spans_seq_nil_iff inside).2 rfl
  | seqCons _ _ _ headIH tailIH =>
    have head := headIH inside
    exact spans_seq_cons_iff.2 ⟨_, head, tailIH head.le_length⟩
  | altFirst _ ih => exact spans_alt_iff.2 ⟨_, List.mem_cons_self, ih inside⟩
  | altLater _ _ ih =>
    obtain ⟨item, member, spans⟩ := spans_alt_iff.1 (ih inside)
    exact spans_alt_iff.2 ⟨item, List.mem_cons_of_mem _ member, spans⟩
  | absent => exact (spans_optional_iff inside).2 (.inl rfl)
  | present _ ih => exact (spans_optional_iff inside).2 (.inr (ih inside))
  | repetitionEnd => exact (spans_repetition_iff inside).2 (.inl ⟨rfl, rfl⟩)
  | repetitionItem more _ _ _ _ headIH tailIH =>
    have head := headIH inside
    exact (spans_repetition_iff inside).2 (.inr ⟨more, _, head, tailIH head.le_length⟩)

/-- Of two places at which an item can end so that the others go on to the end, both longest, there
is only one. -/
theorem IsLongest.unique {item others : Expr} {split other : Nat}
    (first : grammar.IsLongest tokens item others start split stop)
    (second : grammar.IsLongest tokens item others start other stop)
    (head : grammar.Spans tokens item start split) (tail : grammar.Spans tokens others split stop)
    (otherHead : grammar.Spans tokens item start other)
    (otherTail : grammar.Spans tokens others other stop) : split = other := by
  rcases Nat.lt_trichotomy split other with below | same | above
  · exact absurd ⟨otherHead, otherTail⟩ (first other below)
  · exact same
  · exact absurd ⟨head, tail⟩ (second split above)

/-- Only one list of trees is picked for an expression between two places. -/
theorem Picks.unique (picks : grammar.Picks tokens expr start stop trees)
    (inside : start ≤ tokens.length) {others : List Tree}
    (again : grammar.Picks tokens expr start stop others) : trees = others := by
  induction picks generalizing others with
  | literal =>
    cases again
    rfl
  | value found =>
    cases again with
    | value same =>
      rw [found] at same
      cases same
      rfl
  | rule found _ ih =>
    cases again with
    | rule same body =>
      rw [found] at same
      cases same
      rw [ih inside body]
  | seqNil =>
    cases again
    rfl
  | seqCons head tail longest headIH tailIH =>
    cases again with
    | seqCons otherHead otherTail otherLongest =>
      have spans := head.spans inside
      have otherSpans := otherHead.spans inside
      obtain rfl := longest.unique otherLongest spans (tail.spans spans.le_length) otherSpans
        (otherTail.spans otherSpans.le_length)
      rw [headIH inside otherHead, tailIH spans.le_length otherTail]
  | altFirst chosen ih =>
    cases again with
    | altFirst other => exact ih inside other
    | altLater passed => exact absurd (chosen.spans inside) passed
  | altLater passed _ ih =>
    cases again with
    | altFirst other => exact absurd (other.spans inside) passed
    | altLater _ other => exact ih inside other
  | absent passed =>
    cases again with
    | absent => rfl
    | present body => exact absurd (body.spans inside) passed
  | present body ih =>
    cases again with
    | absent passed => exact absurd (body.spans inside) passed
    | present other => exact ih inside other
  | repetitionEnd =>
    cases again with
    | repetitionEnd => rfl
    | repetitionItem _ below _ tail =>
      have after := tail.le
      omega
  | repetitionItem _ below head tail longest headIH tailIH =>
    cases again with
    | repetitionEnd =>
      have after := tail.le
      omega
    | repetitionItem _ _ otherHead otherTail otherLongest =>
      have spans := head.spans inside
      have otherSpans := otherHead.spans inside
      obtain rfl := longest.unique otherLongest spans (tail.spans spans.le_length) otherSpans
        (otherTail.spans otherSpans.le_length)
      rw [headIH inside otherHead, tailIH spans.le_length otherTail]

/-- Where an item can end so that the others go on to the end, there is a longest such span. -/
theorem exists_longest {item others : Expr} {split : Nat}
    (head : grammar.Spans tokens item start split) (tail : grammar.Spans tokens others split stop) :
    ∃ last, grammar.Spans tokens item start last ∧ grammar.Spans tokens others last stop ∧
      grammar.IsLongest tokens item others start last stop := by
  by_contra none
  have endless : ∀ count, ∃ last, count ≤ last ∧ grammar.Spans tokens item start last ∧
      grammar.Spans tokens others last stop := by
    intro count
    induction count with
    | zero => exact ⟨split, Nat.zero_le _, head, tail⟩
    | succ count ih =>
      obtain ⟨last, above, first, second⟩ := ih
      by_contra ends
      refine none ⟨last, first, second, fun later below both => ?_⟩
      exact ends ⟨later, by omega, both⟩
  obtain ⟨last, above, first, _⟩ := endless (tokens.length + 1)
  have bound := first.le_length
  omega

end Grammar

end CommandGrammar
