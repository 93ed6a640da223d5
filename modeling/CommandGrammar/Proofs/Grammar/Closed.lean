import Mathlib
import CommandGrammar.Proofs.Keyed
import CommandGrammar.Proofs.Model.Compiled

/-!
# Closed grammars

Productions may be listed in any order and more than once for a node, in which case the last one
stands for it. They make a grammar if the start node and every node that one of these refers to, at
any depth of its expression, has a production. The productions of a model's grammar do.
-/

namespace CommandGrammar

/-- An expression refers to the rule of a node, at some depth. -/
inductive Expr.Mentions : Expr → NodeId → Prop where
  /-- The rule itself. -/
  | rule (id : NodeId) : Mentions (.rule id) id
  /-- In an item of a sequence. -/
  | seq {items : List Expr} {item : Expr} {id : NodeId} (member : item ∈ items)
      (inside : Mentions item id) : Mentions (.seq items) id
  /-- In an item of a choice. -/
  | alt {items : List Expr} {item : Expr} {id : NodeId} (member : item ∈ items)
      (inside : Mentions item id) : Mentions (.alt items) id
  /-- In what may be left out. -/
  | optional {inner : Expr} {id : NodeId} (inside : Mentions inner id) :
      Mentions (.optional inner) id
  /-- In what is repeated, however often. -/
  | repetition {inner : Expr} {id : NodeId} (min : Nat) (max : Option Nat)
      (inside : Mentions inner id) : Mentions (.repetition inner min max) id

/-- A rule mentions its own node only. -/
theorem Expr.mentions_rule_iff {id other : NodeId} :
    (Expr.rule id).Mentions other ↔ other = id := by
  constructor
  · rintro ⟨⟩
    rfl
  · rintro rfl
    exact .rule other

mutual

/-- The references of an expression are the nodes that it mentions. -/
theorem mem_references_iff (expr : Expr) (id : NodeId) :
    id ∈ expr.references ↔ expr.Mentions id := by
  cases expr with
  | literal text => exact ⟨nofun, nofun⟩
  | value => exact ⟨nofun, nofun⟩
  | rule other => simp [Expr.references, Expr.mentions_rule_iff]
  | seq items =>
    rw [Expr.references, mem_referencesOf_iff items id]
    exact ⟨fun ⟨_, member, inside⟩ => .seq member inside,
      fun | .seq member inside => ⟨_, member, inside⟩⟩
  | alt items =>
    rw [Expr.references, mem_referencesOf_iff items id]
    exact ⟨fun ⟨_, member, inside⟩ => .alt member inside,
      fun | .alt member inside => ⟨_, member, inside⟩⟩
  | optional inner =>
    rw [Expr.references, mem_references_iff inner id]
    exact ⟨.optional, fun | .optional inside => inside⟩
  | repetition inner min max =>
    rw [Expr.references, mem_references_iff inner id]
    exact ⟨.repetition min max, fun | .repetition _ _ inside => inside⟩

/-- The references of several expressions are the nodes that one of them mentions. -/
theorem mem_referencesOf_iff (items : List Expr) (id : NodeId) :
    id ∈ referencesOf items ↔ ∃ item ∈ items, item.Mentions id := by
  cases items with
  | nil => simp [referencesOf]
  | cons item rest =>
    rw [referencesOf, List.mem_append, mem_references_iff item id, mem_referencesOf_iff rest id]
    simp

end

/-- The last production for its node. -/
def Production.Stands (production : Production) (productions : List Production) : Prop :=
  ∃ before after, productions = before ++ production :: after ∧
    ∀ later ∈ after, later.id ≠ production.id

/-- The start node has a production, and so has every node that a production mentions which stands
for its own node. -/
structure Closes (start : NodeId) (productions : List Production) : Prop where
  /-- The start node has a production. -/
  start : ∃ production ∈ productions, production.id = start
  /-- The nodes that are mentioned have productions. -/
  mentions : ∀ production : Production, production.Stands productions →
    ∀ id, production.expr.Mentions id → ∃ other ∈ productions, other.id = id

namespace Grammar

variable {grammar : Grammar} {start : NodeId} {productions : List Production}

/-- The productions that stand for their nodes, in the order of these. -/
def standing (productions : List Production) : List Production :=
  (Keyed.ofEntries (productions.map fun production => (production.id, production))).map Prod.snd

/-- What is kept for a node is the production that stands for it. -/
theorem find?_standing_iff {id : NodeId} {production : Production} :
    Keyed.find? id (Keyed.ofEntries (productions.map fun production =>
        (production.id, production))) = some production ↔
      production.id = id ∧ production.Stands productions := by
  rw [Keyed.find?_ofEntries_iff]
  constructor
  · rintro ⟨_, _, parts, none_later⟩
    obtain ⟨before, rest, rfl, rfl, own⟩ := List.map_eq_append_iff.1 parts
    obtain ⟨first, after, rfl, head, rfl⟩ := List.map_eq_cons_iff.1 own
    obtain ⟨rfl, rfl⟩ := Prod.mk.inj head
    exact ⟨rfl, before, after, rfl, fun later member => none_later _ (List.mem_map_of_mem member)⟩
  · rintro ⟨rfl, before, after, rfl, none_later⟩
    refine ⟨_, _, by rw [List.map_append, List.map_cons], ?_⟩
    exact List.forall_mem_map.2 none_later

/-- The productions that are kept are those that stand for their nodes. -/
theorem mem_standing_iff {production : Production} :
    production ∈ standing productions ↔ production.Stands productions := by
  constructor
  · intro member
    obtain ⟨⟨id, own⟩, listed, rfl⟩ := List.mem_map.1 member
    exact (find?_standing_iff.1 (Keyed.find?_of_mem (Keyed.ordered_ofEntries _) listed)).2
  · intro stands
    have found := find?_standing_iff.2 ⟨rfl, stands⟩
    exact List.mem_map.2 ⟨_, Keyed.mem_of_find? found, rfl⟩

/-- A node has a production that is kept if it has one. -/
theorem mem_ids_standing_iff {id : NodeId} : id ∈ (standing productions).map Production.id ↔
    ∃ production ∈ productions, production.id = id := by
  have keys : (standing productions).map Production.id = Keyed.keys (Keyed.ofEntries
      (productions.map fun production => (production.id, production))) := by
    rw [standing, List.map_map, Keyed.keys]
    refine List.map_congr_left fun entry listed => ?_
    exact (find?_standing_iff.1 (Keyed.find?_of_mem (Keyed.ordered_ofEntries _) listed)).1
  rw [keys, Keyed.mem_keys_ofEntries, List.map_map, List.mem_map]
  rfl

/-- A grammar is closed if its start node and the nodes that its productions mention have
productions. -/
theorem isClosed_iff : grammar.isClosed = true ↔ grammar.start ∈ grammar.ids ∧
    ∀ production ∈ grammar.productions, ∀ id, production.expr.Mentions id → id ∈ grammar.ids := by
  simp only [isClosed, Bool.and_eq_true, List.contains_iff_mem, List.all_eq_true,
    mem_references_iff]

/-- Productions make a grammar if they close, and it has those that stand for their nodes. -/
theorem ofProductions?_eq_some_iff : ofProductions? start productions = some grammar ↔
    Closes start productions ∧ grammar = ⟨standing productions, start⟩ := by
  have closes : (⟨standing productions, start⟩ : Grammar).isClosed = true ↔
      Closes start productions := by
    simp only [isClosed_iff, ids, mem_ids_standing_iff, mem_standing_iff]
    exact ⟨fun closed => ⟨closed.1, closed.2⟩, fun closes => ⟨closes.start, closes.mentions⟩⟩
  have unfolded : ofProductions? start productions =
      if (⟨standing productions, start⟩ : Grammar).isClosed then
        some ⟨standing productions, start⟩ else none := rfl
  rw [unfolded, Option.ite_none_right_eq_some, closes, Option.some.injEq, eq_comm]

/-- A closed grammar closes. -/
theorem closes_of_isClosed (closed : grammar.isClosed = true) :
    Closes grammar.start grammar.productions := by
  obtain ⟨start, mentions⟩ := isClosed_iff.1 closed
  have known {id : NodeId} (member : id ∈ grammar.ids) :
      ∃ other ∈ grammar.productions, other.id = id := List.mem_map.1 member
  refine ⟨known start, fun production stands id inside => ?_⟩
  obtain ⟨before, after, listed, _⟩ := stands
  exact known (mentions production (by simp [listed]) id inside)

end Grammar

end CommandGrammar
