import Mathlib
import CommandGrammar.Proofs.Flatten.Denotation
import CommandGrammar.Proofs.Placed

/-!
# Flattening keeps what expressions denote

The symbols and alternatives made of an expression denote exactly what the expression
does, in rules that have the nonterminals made along with them. The proof goes along
the expression; repetitions are the case with an idea of its own, since a star denotes
items from the left and a chain of optional items denotes at most as many as its links.
-/

namespace CommandGrammar

mutual

/-- Every bounded repetition in the expression allows some number of parts. -/
def Expr.isBounded : Expr → Bool
  | .literal _ | .value | .rule _ => true
  | .seq items | .alt items => areBounded items
  | .optional inner => inner.isBounded
  | .repetition inner min max => inner.isBounded && max.all (min ≤ ·)

/-- Every bounded repetition in the expressions allows some number of parts. -/
def areBounded : List Expr → Bool
  | [] => true
  | item :: rest => item.isBounded && areBounded rest

end

variable {α : Type}

namespace Rules

/-- The rules have a nonterminal under a number. -/
def Has (rules : Rules) (index : Nat) (nonterminal : Nonterminal) : Prop :=
  rules.nonterminals[index]? = some nonterminal

variable {rules : Rules} {index : Nat}

/-- What a nonterminal of the rules stands for. -/
theorem Has.label {nonterminal : Nonterminal} (has : rules.Has index nonterminal) :
    rules.label index = nonterminal.label := by
  unfold Has at has
  rw [Rules.label, has]

/-- The alternatives of a nonterminal of the rules. -/
theorem Has.alternatives {nonterminal : Nonterminal} (has : rules.Has index nonterminal) :
    rules.alternatives index = nonterminal.alternatives := by
  unfold Has at has
  rw [Rules.alternatives, has]

/-- A nonterminal that stands for something else than a nested expression is one of the rules. -/
theorem has_of_label {label : Label} (labelled : rules.label index = label)
    (special : label ≠ .auxiliary) : ∃ nonterminal, rules.Has index nonterminal := by
  unfold Rules.label at labelled
  split at labelled
  · next nonterminal found => exact ⟨nonterminal, found⟩
  · exact absurd labelled.symm special

/-- Rules have their nonterminals, numbered from zero on. -/
theorem placed_has (rules : Rules) : Placed rules.Has 0 rules.nonterminals.toList := by
  intro place nonterminal found
  rw [Nat.zero_add, Has, ← Array.getElem?_toList]
  exact found

/-- The nonterminals of nodes stand for them. -/
def Resolves (rules : Rules) (rule : NodeId → Nat) (ids : List NodeId) : Prop :=
  ∀ id ∈ ids, rules.label (rule id) = .named id

/-- Symbols denote what an expression does. -/
def Stands (rules : Rules) (rule : NodeId → Nat) (atoms : Atoms α) (symbols : List Symbol)
    (expr : Expr) : Prop :=
  ∀ word, rules.Denotes rule atoms symbols word ↔ expr.Denotes atoms word

variable {rule : NodeId → Nat} {atoms : Atoms α} {word : List α}

/-- What a star and further symbols denote begins with any number of parts that its item denotes. -/
theorem Denotes.star_parts {number : Nat} {item : Symbol} {rest : List Symbol}
    (has : rules.Has number ⟨.star item, [[.nonterminal number, item], []]⟩)
    (denoted : rules.Denotes rule atoms (.nonterminal number :: rest) word) :
    ∃ (parts : List (List α)) (others : List α), word = parts.flatten ++ others ∧
      (∀ part ∈ parts, rules.Denotes rule atoms [item] part) ∧
      rules.Denotes rule atoms rest others := by
  generalize same : Symbol.nonterminal number :: rest = symbols at denoted
  induction denoted generalizing rest with
  | nil | literal | value => cases same
  | @named id _ _ _ label =>
    obtain ⟨index, _⟩ : number = rule id ∧ rest = _ := by simpa using same
    rw [← index, has.label] at label
    cases label
  | nested _ member body tail bodyIH _ =>
    cases same
    rw [has.alternatives] at member
    rcases List.mem_cons.1 member with rfl | none_left
    · obtain ⟨parts, last, rfl, each, item⟩ := bodyIH rfl
      exact ⟨parts ++ [last], _, by simp, by simpa [or_imp, forall_and] using ⟨each, item⟩, tail⟩
    · obtain rfl := List.mem_singleton.1 none_left
      cases body
      exact ⟨[], _, rfl, by simp, tail⟩

/-- A star denotes any number of parts that its item denotes. -/
theorem denotes_star_iff {number : Nat} {item : Symbol}
    (has : rules.Has number ⟨.star item, [[.nonterminal number, item], []]⟩) :
    rules.Denotes rule atoms [.nonterminal number] word ↔
      ∃ parts : List (List α), word = parts.flatten ∧
        ∀ part ∈ parts, rules.Denotes rule atoms [item] part := by
  have nested : ∀ id, rules.label number ≠ .named id := by simp [has.label]
  constructor
  · intro denoted
    obtain ⟨parts, others, rfl, each, tail⟩ := denoted.star_parts has
    exact ⟨parts, by rw [denotes_nil_iff.1 tail, List.append_nil], each⟩
  · rintro ⟨parts, rfl, each⟩
    -- The alternatives of a star put the star before the item, so the last part comes off first.
    induction parts using List.reverseRecOn with
    | nil => exact (denotes_nested_iff nested).2 ⟨[], by simp [has.alternatives], .nil⟩
    | append_singleton parts last ih =>
      have before := ih fun part member => each part (List.mem_append_left _ member)
      have after := each last (List.mem_append_right _ (List.mem_singleton_self _))
      refine (denotes_nested_iff nested).2 ⟨_, by rw [has.alternatives]; exact List.mem_cons_self,
        ?_⟩
      simpa using before.append after

/-- A link of a chain is an item and the link before it, or nothing. -/
theorem has_link {number links link : Nat} {item : Symbol}
    (placed : Placed rules.Has number (Flatten.chainTail number item links).2)
    (inside : link < links) : rules.Has (number + (link + 1))
      ⟨.auxiliary, [[item, .nonterminal (number + link)], []]⟩ := by
  obtain ⟨_, others⟩ := placed_cons_iff.1 placed
  have has := others link _ (by
    rw [List.getElem?_map, List.getElem?_range inside, Option.map_some])
  rwa [show number + 1 + link = number + (link + 1) by omega] at has

/-- The links of a chain are nonterminals of nested expressions. -/
theorem label_link {number links link : Nat} {item : Symbol}
    (placed : Placed rules.Has number (Flatten.chainTail number item links).2)
    (inside : link ≤ links) : rules.label (number + link) = .auxiliary := by
  cases link with
  | zero => exact (placed_cons_iff.1 placed).1.label
  | succ link => exact (has_link placed inside).label

/-- A chain of optional items denotes at most as many parts as it has links. -/
theorem denotes_chain_iff {number links link : Nat} {item : Symbol}
    (placed : Placed rules.Has number (Flatten.chainTail number item links).2)
    (inside : link ≤ links) :
    rules.Denotes rule atoms [.nonterminal (number + link)] word ↔
      ∃ parts : List (List α), word = parts.flatten ∧ parts.length ≤ link ∧
        ∀ part ∈ parts, rules.Denotes rule atoms [item] part := by
  have empty := (placed_cons_iff.1 placed).1
  induction link generalizing word with
  | zero =>
    rw [Nat.add_zero, denotes_nested_iff (by simp [empty.label]), empty.alternatives]
    simp only [List.mem_singleton, exists_eq_left, denotes_nil_iff, Nat.le_zero,
      List.length_eq_zero_iff]
    constructor
    · rintro rfl
      exact ⟨[], rfl, rfl, by simp⟩
    · rintro ⟨_, rfl, rfl, _⟩
      rfl
  | succ link ih =>
    have has := has_link placed inside
    rw [denotes_nested_iff (by simp [has.label]), has.alternatives]
    simp only [List.mem_cons, List.not_mem_nil, or_false, exists_eq_or_imp, exists_eq_left]
    rw [denotes_cons_iff, denotes_nil_iff]
    constructor
    · rintro (⟨first, others, rfl, head, tail⟩ | rfl)
      · obtain ⟨parts, rfl, few, each⟩ := (ih (by omega)).1 tail
        exact ⟨first :: parts, rfl, by simpa using few, by simpa using ⟨head, each⟩⟩
      · exact ⟨[], rfl, by simp, by simp⟩
    · rintro ⟨parts, rfl, few, each⟩
      cases parts with
      | nil => exact .inr rfl
      | cons first parts =>
        refine .inl ⟨first, parts.flatten, rfl, each first List.mem_cons_self, (ih (by omega)).2
          ⟨parts, rfl, by simpa using few, fun part member =>
            each part (List.mem_cons_of_mem _ member)⟩⟩

/-- A repetition denotes what the repeated expression allows. -/
theorem repeated_stands {next min : Nat} {max : Option Nat} {item : Flatten.Made Symbol}
    {inner : Expr} (placed : Placed rules.Has next (Flatten.repeated next min max item).2)
    (bounded : ∀ bound ∈ max, min ≤ bound) (stands : rules.Stands rule atoms [item.1] inner) :
    rules.Stands rule atoms [(Flatten.repeated next min max item).1]
      (.repetition inner min max) := by
  intro word
  have each : ∀ parts : List (List α), (∀ part ∈ parts, rules.Denotes rule atoms [item.1] part) ↔
      ∀ part ∈ parts, inner.Denotes atoms part :=
    fun parts => forall₂_congr fun part _ => stands part
  obtain ⟨has, tail⟩ := placed_cons_iff.1 placed
  have ends := (placed_append_iff.1 tail).2
  change rules.Denotes rule atoms [.nonterminal next] word ↔ _
  rw [Expr.denotes_repetition_iff, denotes_nested_iff (by simp [has.label]), has.alternatives]
  simp only [List.mem_singleton, exists_eq_left]
  rw [denotes_append_iff]
  cases max with
  | none =>
    have star := (placed_cons_iff.1 ends).1
    simp only [Flatten.starTail, denotes_star_iff star, denotes_replicate_iff, each]
    constructor
    · rintro ⟨_, _, rfl, ⟨first, rfl, number, head⟩, others, rfl, more⟩
      refine ⟨first ++ others, by simp, by simp [number], by simp, fun part member => ?_⟩
      exact (List.mem_append.1 member).elim (head part) (more part)
    · rintro ⟨parts, rfl, least, _, all⟩
      refine ⟨_, _, ?_, ⟨parts.take min, rfl, by simpa using least, fun part member =>
        all part (List.mem_of_mem_take member)⟩, parts.drop min, rfl, fun part member =>
        all part (List.mem_of_mem_drop member)⟩
      rw [← List.flatten_append, List.take_append_drop]
  | some bound =>
    have ordered := bounded bound rfl
    simp only [Flatten.chainTail, denotes_chain_iff ends (Nat.le_refl _), denotes_replicate_iff,
      each]
    constructor
    · rintro ⟨_, _, rfl, ⟨first, rfl, number, head⟩, others, rfl, few, more⟩
      refine ⟨first ++ others, by simp, by simp [number], ?_, fun part member => ?_⟩
      · simp only [Option.mem_some_iff, List.length_append]
        rintro _ rfl
        omega
      · exact (List.mem_append.1 member).elim (head part) (more part)
    · rintro ⟨parts, rfl, least, most, all⟩
      have few := most bound rfl
      refine ⟨_, _, ?_, ⟨parts.take min, rfl, by simpa using least, fun part member =>
        all part (List.mem_of_mem_take member)⟩, parts.drop min, rfl, ?_, fun part member =>
        all part (List.mem_of_mem_drop member)⟩
      · rw [← List.flatten_append, List.take_append_drop]
      · rw [List.length_drop]
        omega

/-- Lists of symbols, each of which denotes what an expression does, one after the other. -/
theorem flatten_stands {parts : List (List Symbol)} {items : List Expr}
    (stands : List.Forall₂ (rules.Stands rule atoms) parts items) :
    rules.Stands rule atoms parts.flatten (.seq items) := by
  induction stands with
  | nil =>
    intro word
    rw [Expr.denotes_seq_nil_iff]
    exact denotes_nil_iff
  | cons head _ ih =>
    intro word
    rw [List.flatten_cons, denotes_append_iff, Expr.denotes_seq_cons_iff]
    simp only [head _, ih _]

/-- Alternatives, each of which denotes what an expression does, denote the choice of these. -/
theorem choice_stands {parts : List (List Symbol)} {items : List Expr}
    (stands : List.Forall₂ (rules.Stands rule atoms) parts items) :
    (∃ part ∈ parts, rules.Denotes rule atoms part word) ↔ (Expr.alt items).Denotes atoms word := by
  rw [Expr.denotes_alt_iff]
  induction stands with
  | nil => simp
  | cons head _ ih =>
    simp only [List.mem_cons, exists_eq_or_imp, head _, ih]

/-- The empty alternative after others makes what they denote optional. -/
theorem orEmpty_iff {alternatives : List (List Symbol)} :
    (∃ symbols ∈ alternatives ++ [[]], rules.Denotes rule atoms symbols word) ↔
      word = [] ∨ ∃ symbols ∈ alternatives, rules.Denotes rule atoms symbols word := by
  simp only [List.mem_append, List.mem_singleton, or_and_right, exists_or, exists_eq_left,
    denotes_nil_iff]
  exact or_comm

/-- An only alternative. -/
theorem exists_mem_singleton {symbols : List Symbol} :
    (∃ alternative ∈ [symbols], rules.Denotes rule atoms alternative word) ↔
      rules.Denotes rule atoms symbols word := by
  simp only [List.mem_singleton, exists_eq_left]

/-- A new nonterminal denotes what its alternatives do. -/
theorem auxiliary_iff {next : Nat} {made : Flatten.Made (List (List Symbol))}
    (placed : Placed rules.Has next (Flatten.auxiliary next made).2) :
    rules.Denotes rule atoms [(Flatten.auxiliary next made).1] word ↔
      ∃ symbols ∈ made.1, rules.Denotes rule atoms symbols word := by
  have has := (placed_cons_iff.1 placed).1
  rw [Flatten.auxiliary, denotes_nested_iff (by simp [has.label]), has.alternatives]

/-- A new nonterminal for a choice denotes what the choice does. -/
theorem auxiliary_alt_stands {next : Nat} {made : Flatten.Made (List (List Symbol))}
    {items : List Expr} (placed : Placed rules.Has next (Flatten.auxiliary next made).2)
    (stands : List.Forall₂ (rules.Stands rule atoms) made.1 items) :
    rules.Stands rule atoms [(Flatten.auxiliary next made).1] (.alt items) := by
  intro word
  rw [auxiliary_iff placed]
  exact choice_stands stands

/-- A new nonterminal for an option denotes what the option does. -/
theorem auxiliary_optional_stands {next : Nat} {made : Flatten.Made (List (List Symbol))}
    {inner : Expr}
    (placed : Placed rules.Has next (Flatten.auxiliary next (Flatten.orEmpty made)).2)
    (stands : ∀ word, (∃ symbols ∈ made.1, rules.Denotes rule atoms symbols word) ↔
      inner.Denotes atoms word) :
    rules.Stands rule atoms [(Flatten.auxiliary next (Flatten.orEmpty made)).1]
      (.optional inner) := by
  intro word
  rw [auxiliary_iff placed, Flatten.orEmpty, orEmpty_iff, stands, Expr.denotes_optional_iff]

/-- A repetition, as one symbol of an item that denotes what the repeated expression does. -/
theorem repetition_stands {next min : Nat} {max : Option Nat} {item : Flatten.Made Symbol}
    {inner : Expr} (bounded : (Expr.repetition inner min max).isBounded = true)
    (placed : Placed rules.Has next (Flatten.repeated next min max item).2)
    (stands : inner.isBounded = true → Placed rules.Has (next + 1) item.2 →
      rules.Stands rule atoms [item.1] inner) :
    rules.Stands rule atoms [(Flatten.repeated next min max item).1]
      (.repetition inner min max) := by
  rw [Expr.isBounded, Bool.and_eq_true] at bounded
  have within : ∀ bound ∈ max, min ≤ bound := by
    rintro bound rfl
    simpa using bounded.2
  have made := (placed_append_iff.1 (placed_cons_iff.1 placed).2).1
  exact repeated_stands placed within (stands bounded.1 made)

mutual

/-- The symbol of an expression denotes what the expression does. -/
theorem symbol_stands (expr : Expr) (next : Nat) (bounded : expr.isBounded = true)
    (resolves : rules.Resolves rule expr.references)
    (placed : Placed rules.Has next (Flatten.symbol rule next expr).2) :
    rules.Stands rule atoms [(Flatten.symbol rule next expr).1] expr := by
  cases expr with
  | literal text => exact fun word => denotes_literal_iff.trans Expr.denotes_literal_iff.symm
  | value => exact fun word => denotes_value_iff.trans Expr.denotes_value_iff.symm
  | rule id =>
    have label := resolves id (List.mem_singleton_self _)
    exact fun word => (denotes_named_iff label).trans Expr.denotes_rule_iff.symm
  | seq items =>
    have inner := sequences_stand items (next + 1) bounded resolves (placed_cons_iff.1 placed).2
    intro word
    rw [Flatten.symbol] at placed ⊢
    rw [auxiliary_iff placed, ← flatten_stands inner word]
    simp [Flatten.only, Flatten.joined]
  | alt items =>
    exact auxiliary_alt_stands placed
      (sequences_stand items (next + 1) bounded resolves (placed_cons_iff.1 placed).2)
  | optional inner =>
    exact auxiliary_optional_stands placed
      (alternatives_stand inner (next + 1) bounded resolves (placed_cons_iff.1 placed).2)
  | repetition inner min max =>
    exact repetition_stands bounded placed fun inside made =>
      symbol_stands inner (next + 1) inside resolves made

/-- The symbols of an expression denote what the expression does. -/
theorem sequence_stands (expr : Expr) (next : Nat) (bounded : expr.isBounded = true)
    (resolves : rules.Resolves rule expr.references)
    (placed : Placed rules.Has next (Flatten.sequence rule next expr).2) :
    rules.Stands rule atoms (Flatten.sequence rule next expr).1 expr := by
  cases expr with
  | literal text => exact fun word => denotes_literal_iff.trans Expr.denotes_literal_iff.symm
  | value => exact fun word => denotes_value_iff.trans Expr.denotes_value_iff.symm
  | rule id =>
    have label := resolves id (List.mem_singleton_self _)
    exact fun word => (denotes_named_iff label).trans Expr.denotes_rule_iff.symm
  | seq items => exact flatten_stands (sequences_stand items next bounded resolves placed)
  | alt items =>
    exact auxiliary_alt_stands placed
      (sequences_stand items (next + 1) bounded resolves (placed_cons_iff.1 placed).2)
  | optional inner =>
    exact auxiliary_optional_stands placed
      (alternatives_stand inner (next + 1) bounded resolves (placed_cons_iff.1 placed).2)
  | repetition inner min max =>
    exact repetition_stands bounded placed fun inside made =>
      symbol_stands inner (next + 1) inside resolves made

/-- The alternatives of an expression denote what the expression does. -/
theorem alternatives_stand (expr : Expr) (next : Nat) (bounded : expr.isBounded = true)
    (resolves : rules.Resolves rule expr.references)
    (placed : Placed rules.Has next (Flatten.alternatives rule next expr).2) (word : List α) :
    (∃ symbols ∈ (Flatten.alternatives rule next expr).1,
      rules.Denotes rule atoms symbols word) ↔ expr.Denotes atoms word := by
  cases expr with
  | literal text =>
    exact exists_mem_singleton.trans (denotes_literal_iff.trans Expr.denotes_literal_iff.symm)
  | value =>
    exact exists_mem_singleton.trans (denotes_value_iff.trans Expr.denotes_value_iff.symm)
  | rule id =>
    have label := resolves id (List.mem_singleton_self _)
    exact exists_mem_singleton.trans ((denotes_named_iff label).trans Expr.denotes_rule_iff.symm)
  | seq items =>
    exact exists_mem_singleton.trans
      (flatten_stands (sequences_stand items next bounded resolves placed) word)
  | alt items => exact choice_stands (sequences_stand items next bounded resolves placed)
  | optional inner =>
    rw [Flatten.alternatives, Flatten.orEmpty, orEmpty_iff, Expr.denotes_optional_iff,
      alternatives_stand inner next bounded resolves placed]
  | repetition inner min max =>
    exact exists_mem_singleton.trans (repetition_stands bounded placed (fun inside made =>
      symbol_stands inner (next + 1) inside resolves made) word)

/-- The symbols of several expressions denote what these do. -/
theorem sequences_stand (items : List Expr) (next : Nat) (bounded : areBounded items = true)
    (resolves : rules.Resolves rule (referencesOf items))
    (placed : Placed rules.Has next (Flatten.sequences rule next items).2) :
    List.Forall₂ (rules.Stands rule atoms) (Flatten.sequences rule next items).1 items := by
  cases items with
  | nil => exact .nil
  | cons item rest =>
    rw [areBounded, Bool.and_eq_true] at bounded
    rw [referencesOf] at resolves
    rw [Flatten.sequences] at placed ⊢
    obtain ⟨first, others⟩ := placed_append_iff.1 placed
    have head := sequence_stands item next bounded.1
      (fun id member => resolves id (List.mem_append_left _ member)) first
    have tail := sequences_stand rest _ bounded.2
      (fun id member => resolves id (List.mem_append_right _ member)) others
    exact .cons head tail

end

end Rules

end CommandGrammar
