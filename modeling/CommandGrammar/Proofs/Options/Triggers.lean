import Mathlib
import CommandGrammar.Proofs.Flatten.Literals
import CommandGrammar.Proofs.Model.Compiled

/-!
# Triggers of compiled grammars

A joined word is cut where it begins with a literal of the grammar that has a dash in front.
The triggers of every option are among these literals, since each of them begins an
alternative of the option's production. Besides triggers only the names of commands can be
among them.
-/

namespace CommandGrammar

namespace Flatten

variable {rule : NodeId → Nat} {next : Nat}

/-- The symbols of an expression are among those of several expressions with it. -/
theorem exists_mem_sequences {items : List Expr} {item : Expr} (member : item ∈ items) :
    ∃ number, (sequence rule number item).1 ∈ (sequences rule next items).1 := by
  induction items generalizing next with
  | nil => cases member
  | cons head rest ih =>
    rw [sequences]
    rcases List.mem_cons.1 member with rfl | later
    · exact ⟨next, List.mem_cons_self⟩
    · obtain ⟨number, inside⟩ := ih later
      exact ⟨number, List.mem_cons_of_mem _ inside⟩

/-- The symbols of an item without alternatives are an alternative of a choice with it. -/
theorem exists_mem_choice {items : List Expr} {item : Expr} (member : item ∈ items)
    (sole : alternatives rule next item = only (sequence rule next item)) :
    ∃ number, (sequence rule number item).1 ∈ (alternatives rule next (Expr.choice items)).1 := by
  unfold Expr.choice
  split
  · obtain rfl := List.mem_singleton.1 member
    rw [sole]
    exact ⟨next, List.mem_singleton_self _⟩
  · exact exists_mem_sequences member

end Flatten

/-- The words of a node that stand in the grammar: the triggers of a flag, the name of a command. -/
def Node.words (node : Node) : List String :=
  match node.kind with
  | .flag triggers _ => triggers
  | .positional => []
  | .command _ | .group .. => [node.name]

namespace Model

variable {schema : Command} {model : Model} {mode : RequiredParams}

/-- A word of a node begins an alternative of its production. -/
theorem exists_alternative (rule : NodeId → Nat) (next : Nat) {node : Node} {word : String}
    (own : word ∈ node.words) : ∃ alternative ∈
      (Flatten.alternatives rule next (model.exprOf mode node)).1, .literal word ∈ alternative := by
  unfold Node.words at own
  unfold exprOf nodeExpr
  cases kind : node.kind with
  | flag triggers takesValue =>
    simp only [kind] at own ⊢
    obtain ⟨number, listed⟩ := @Flatten.exists_mem_choice rule next _ _
      (List.mem_map_of_mem (f := fun trigger =>
        if takesValue then Expr.seq [.literal trigger, .optional (.literal "="), .value]
        else .literal trigger) own) (by split <;> rfl)
    refine ⟨_, listed, ?_⟩
    split <;> simp [Flatten.sequence, Flatten.sequences, Flatten.joined]
  | positional =>
    simp only [kind] at own
    cases own
  | command params =>
    simp only [kind, List.mem_singleton] at own ⊢
    subst own
    unfold commandExpr
    split <;> simp [Flatten.alternatives, Flatten.sequence, Flatten.sequences, Flatten.only,
      Flatten.joined]
  | group params subcommands =>
    simp only [kind, List.mem_singleton] at own ⊢
    subst own
    simp [groupExpr, Flatten.alternatives, Flatten.sequence, Flatten.sequences, Flatten.only,
      Flatten.joined]

/-- The words of a node that begin with a dash are triggers of its grammar. -/
theorem word_mem_triggers (made : ofSchema schema = .ok model) {id : NodeId} {node : Node}
    (found : model.node? id = some node) {word : String} (own : word ∈ node.words)
    (dash : word.toList.head? = some '-') :
    word ∈ (Table.ofGrammar (model.grammar mode)).triggers := by
  obtain ⟨next, has, _⟩ := Grammar.has_number (production?_grammar made mode found)
  obtain ⟨alternative, listed, first⟩ :=
    @exists_alternative model mode (model.grammar mode).number next node word own
  have nonterminal := Array.mem_toList_iff.2 (Array.mem_of_getElem? has)
  have inside : .literal word ∈ (Rules.ofGrammar (model.grammar mode)).symbols :=
    List.mem_flatMap.2 ⟨_, nonterminal, List.mem_flatten.2 ⟨_, listed, first⟩⟩
  exact List.mem_filterMap.2 ⟨_, inside, if_pos dash⟩

/-- A choice of rules has no literal. -/
theorem literals_rules (ids : List NodeId) :
    (Expr.choice (ids.map .rule)).literals = [] := by
  rw [literals_choice]
  induction ids with
  | nil => rfl
  | cons id rest ih => simpa [literalsOf, Expr.literals] using ih

/-- The literals of a flag are its triggers and the equals sign. -/
theorem literals_flagExpr (triggers : List String) (takesValue : Bool) :
    (flagExpr triggers takesValue).literals ⊆ "=" :: triggers := by
  rw [flagExpr, literals_choice]
  induction triggers with
  | nil => simp [literalsOf]
  | cons trigger rest ih =>
    have later : literalsOf (rest.map fun trigger =>
        if takesValue then .seq [.literal trigger, .optional (.literal "="), .value]
        else .literal trigger) ⊆ "=" :: trigger :: rest := by
      intro text member
      rcases List.mem_cons.1 (ih member) with sign | known
      · exact List.mem_cons.2 (.inl sign)
      · exact List.mem_cons_of_mem _ (List.mem_cons_of_mem _ known)
    rw [List.map_cons, literalsOf, List.append_subset]
    refine ⟨?_, later⟩
    split <;> simp [Expr.literals, literalsOf]

/-- The literals of a node are its words and the equals sign. -/
theorem literals_exprOf (node : Node) :
    (model.exprOf mode node).literals ⊆ "=" :: node.words := by
  unfold exprOf nodeExpr Node.words
  cases node.kind with
  | flag triggers takesValue => exact literals_flagExpr triggers takesValue
  | positional => simp [Expr.literals]
  | group =>
    simp only [groupExpr, Expr.literals, literalsOf, literals_rules]
    simp
  | command =>
    simp only [commandExpr]
    split
    · simp [Expr.literals]
    · simp [Expr.literals, literalsOf, literals_rules]

/-- A literal that begins with a dash is a trigger of a flag or the name of a command. -/
theorem mem_triggers {trigger : String}
    (member : trigger ∈ (Table.ofGrammar (model.grammar mode)).triggers) :
    trigger.toList.head? = some '-' ∧ ∃ node ∈ model.nodes, trigger ∈ node.words := by
  obtain ⟨dash, production, listed, inside⟩ := Grammar.mem_triggers member
  obtain ⟨node, known, rfl⟩ := List.mem_map.1 listed
  refine ⟨dash, node, known, ?_⟩
  rcases List.mem_cons.1 (literals_exprOf node inside) with rfl | word
  · exact absurd dash (by decide)
  · exact word

/-- Both grammars of a model cut a line into the same tokens. -/
theorem triggers_agree (made : ofSchema schema = .ok model) (mode other : RequiredParams) :
    (Table.ofGrammar (model.grammar mode)).triggers.contains =
      (Table.ofGrammar (model.grammar other)).triggers.contains := by
  have within (one another : RequiredParams) (text : String)
      (member : text ∈ (Table.ofGrammar (model.grammar one)).triggers) :
      text ∈ (Table.ofGrammar (model.grammar another)).triggers := by
    obtain ⟨dash, node, listed, own⟩ := mem_triggers member
    exact word_mem_triggers made (node?_id made listed) own dash
  funext text
  rw [Bool.eq_iff_iff, List.contains_iff_mem, List.contains_iff_mem]
  exact ⟨within mode other text, within other mode text⟩

end Model

end CommandGrammar
