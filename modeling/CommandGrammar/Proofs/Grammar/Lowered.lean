import Mathlib
import CommandGrammar.Grammar.Language

/-!
# Grammars with lower minima

Two expressions may differ in nothing but the least numbers of parts that their repetitions
ask for, at any depth. The one with the lower numbers derives all that the other one derives,
and so does a grammar whose productions are lowered one by one.
-/

namespace CommandGrammar

/-- The expression is another one, with minima that are no greater. -/
inductive Expr.Lowers : Expr → Expr → Prop where
  /-- The same literal. -/
  | literal (text : String) : Lowers (.literal text) (.literal text)
  /-- The value terminal. -/
  | value : Lowers .value .value
  /-- The same rule. -/
  | rule (id : NodeId) : Lowers (.rule id) (.rule id)
  /-- Sequences that are lowered item by item. -/
  | seq {items others : List Expr} (each : List.Forall₂ Lowers items others) :
      Lowers (.seq items) (.seq others)
  /-- Choices that are lowered item by item. -/
  | alt {items others : List Expr} (each : List.Forall₂ Lowers items others) :
      Lowers (.alt items) (.alt others)
  /-- Options of what is lowered. -/
  | optional {inner other : Expr} (body : Lowers inner other) :
      Lowers (.optional inner) (.optional other)
  /-- Repetitions with one maximum, of what is lowered. -/
  | repetition {inner other : Expr} {less least : Nat} (max : Option Nat)
      (body : Lowers inner other) (ordered : less ≤ least) :
      Lowers (.repetition inner less max) (.repetition other least max)

mutual

/-- Every expression is itself with the same minima. -/
theorem Expr.lowers_refl (expr : Expr) : expr.Lowers expr := by
  cases expr with
  | literal text => exact .literal text
  | value => exact .value
  | rule id => exact .rule id
  | seq items => exact .seq (lowers_refl_items items)
  | alt items => exact .alt (lowers_refl_items items)
  | optional inner => exact .optional (Expr.lowers_refl inner)
  | repetition inner min max => exact .repetition max (Expr.lowers_refl inner) (Nat.le_refl min)

/-- Several expressions are themselves with the same minima. -/
theorem lowers_refl_items (items : List Expr) : List.Forall₂ Expr.Lowers items items := by
  cases items with
  | nil => exact .nil
  | cons item rest => exact .cons (Expr.lowers_refl item) (lowers_refl_items rest)

end

/-- Among expressions that are lowered one by one each has its lowered one. -/
theorem exists_lowered {items others : List Expr} (each : List.Forall₂ Expr.Lowers items others)
    {other : Expr} (member : other ∈ others) : ∃ item ∈ items, item.Lowers other := by
  induction each with
  | nil => cases member
  | @cons item own _ _ head _ ih =>
    rcases List.mem_cons.1 member with rfl | later
    · exact ⟨item, List.mem_cons_self, head⟩
    · obtain ⟨found, listed, lower⟩ := ih later
      exact ⟨found, List.mem_cons_of_mem _ listed, lower⟩

/-- One production is another one, with minima that are no greater. -/
structure Production.Lowers (production other : Production) : Prop where
  /-- They are for the same node. -/
  id : production.id = other.id
  /-- They have the same name. -/
  name : production.name = other.name
  /-- The right-hand side is lowered. -/
  expr : production.expr.Lowers other.expr

/-- One grammar is another one, with minima that are no greater. -/
structure Grammar.Lowers (loose strict : Grammar) : Prop where
  /-- They derive from the same node. -/
  start : loose.start = strict.start
  /-- The productions are lowered one by one. -/
  productions : List.Forall₂ Production.Lowers loose.productions strict.productions

namespace Grammar

variable {loose strict : Grammar}

/-- What an expression derives a lowered one derives, in a grammar with a lowered production for
each production. -/
theorem Derives.lowered
    (lowered : ∀ id production, strict.production? id = some production →
      ∃ other, loose.production? id = some other ∧ other.expr.Lowers production.expr)
    {expr : Expr} {word : List String} (derived : strict.Derives expr word) {other : Expr}
    (below : other.Lowers expr) : loose.Derives other word := by
  -- The induction is on the derivation, since rules may lead back to themselves.
  induction derived generalizing other with
  | literal text =>
    cases below
    exact .literal text
  | value token =>
    cases below
    exact .value token
  | rule found _ ih =>
    cases below
    obtain ⟨production, there, lower⟩ := lowered _ _ found
    exact .rule there (ih lower)
  | seqNil =>
    cases below with
    | seq each =>
      cases each
      exact .seqNil
  | seqCons _ _ headIH tailIH =>
    cases below with
    | seq each =>
      cases each with
      | cons head tail => exact .seqCons (headIH head) (tailIH (.seq tail))
  | alt member _ ih =>
    cases below with
    | alt each =>
      obtain ⟨item, listed, lower⟩ := exists_lowered each member
      exact .alt listed (ih lower)
  | absent inner =>
    cases below
    exact .absent _
  | present _ ih =>
    cases below with
    | optional body => exact .present (ih body)
  | repetition parts least most _ ih =>
    cases below with
    | repetition max body ordered =>
      exact .repetition parts (Nat.le_trans ordered least) most fun part member =>
        ih part member body

/-- To each production of the grammar there is one of the lowered grammar. -/
theorem Lowers.production? (lowers : loose.Lowers strict) {id : NodeId} {production : Production}
    (found : strict.production? id = some production) :
    ∃ other, loose.production? id = some other ∧ other.Lowers production := by
  have each := lowers.productions
  unfold Grammar.production? at found ⊢
  generalize loose.productions = lowered at each ⊢
  generalize strict.productions = given at each found
  induction each with
  | nil => cases found
  | @cons other own others rest head _ ih =>
    rw [List.find?_cons] at found ⊢
    rw [head.id]
    split at found
    · cases found
      exact ⟨other, rfl, head⟩
    · exact ih found

/-- What is accepted is accepted by a grammar with lower minima. -/
theorem Lowers.accepts (lowers : loose.Lowers strict) {tokens : List String}
    (accepted : strict.Accepts tokens) : loose.Accepts tokens := by
  unfold Accepts at accepted ⊢
  rw [lowers.start]
  refine accepted.lowered (fun id production found => ?_) (.rule _)
  obtain ⟨other, there, lower⟩ := lowers.production? found
  exact ⟨other, there, lower.expr⟩

end Grammar

end CommandGrammar
