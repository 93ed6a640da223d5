import Mathlib
import CommandGrammar.Chart.Rules

/-!
# What expressions and flat rules denote

Both expressions and the symbols of flat rules denote sets of sequences, once it is
settled what literals, the value terminal and the rules of nodes stand for. With tokens
for elements this gives languages, and with trees the children that a branch may have;
the two are related by flattening in the same way.
-/

namespace CommandGrammar

/-- The sequences that literals, the value terminal and the rules of nodes stand for. -/
structure Atoms (α : Type) where
  /-- The sequences of a literal. -/
  literal : String → List α → Prop
  /-- The sequences of the value terminal. -/
  value : List α → Prop
  /-- The sequences of the rule of a node. -/
  rule : NodeId → List α → Prop

variable {α : Type}

/-- The sequences that an expression denotes. -/
inductive Expr.Denotes (atoms : Atoms α) : Expr → List α → Prop where
  /-- A literal denotes what it stands for. -/
  | literal {text : String} {word : List α} (stands : atoms.literal text word) :
      Denotes atoms (.literal text) word
  /-- The value terminal denotes what it stands for. -/
  | value {word : List α} (stands : atoms.value word) : Denotes atoms .value word
  /-- A rule denotes what it stands for. -/
  | rule {id : NodeId} {word : List α} (stands : atoms.rule id word) : Denotes atoms (.rule id) word
  /-- The empty sequence of expressions denotes the empty sequence. -/
  | seqNil : Denotes atoms (.seq []) []
  /-- A sequence denotes what its items denote, one after the other. -/
  | seqCons {item : Expr} {rest : List Expr} {first others : List α}
      (head : Denotes atoms item first) (tail : Denotes atoms (.seq rest) others) :
      Denotes atoms (.seq (item :: rest)) (first ++ others)
  /-- A choice denotes what one of its items denotes. -/
  | alt {items : List Expr} {item : Expr} {word : List α} (member : item ∈ items)
      (chosen : Denotes atoms item word) : Denotes atoms (.alt items) word
  /-- An option may be left out. -/
  | absent (inner : Expr) : Denotes atoms (.optional inner) []
  /-- An option denotes what it holds. -/
  | present {inner : Expr} {word : List α} (body : Denotes atoms inner word) :
      Denotes atoms (.optional inner) word
  /-- A repetition denotes parts whose number is within its bounds. -/
  | repetition {inner : Expr} {min : Nat} {max : Option Nat} (parts : List (List α))
      (least : min ≤ parts.length) (most : ∀ bound ∈ max, parts.length ≤ bound)
      (each : ∀ part ∈ parts, Denotes atoms inner part) :
      Denotes atoms (.repetition inner min max) parts.flatten

namespace Expr

variable {atoms : Atoms α} {word : List α}

/-- A literal denotes exactly what it stands for. -/
theorem denotes_literal_iff {text : String} :
    (Expr.literal text).Denotes atoms word ↔ atoms.literal text word := by
  constructor
  · rintro ⟨⟩
    assumption
  · exact .literal

/-- The value terminal denotes exactly what it stands for. -/
theorem denotes_value_iff : Expr.value.Denotes atoms word ↔ atoms.value word := by
  constructor
  · rintro ⟨⟩
    assumption
  · exact .value

/-- A rule denotes exactly what it stands for. -/
theorem denotes_rule_iff {id : NodeId} :
    (Expr.rule id).Denotes atoms word ↔ atoms.rule id word := by
  constructor
  · rintro ⟨⟩
    assumption
  · exact .rule

/-- The empty sequence of expressions denotes only the empty sequence. -/
theorem denotes_seq_nil_iff : (Expr.seq []).Denotes atoms word ↔ word = [] := by
  constructor
  · rintro ⟨⟩
    rfl
  · rintro rfl
    exact .seqNil

/-- What a sequence denotes divides into what its first item and what the others denote. -/
theorem denotes_seq_cons_iff {item : Expr} {rest : List Expr} :
    (Expr.seq (item :: rest)).Denotes atoms word ↔
      ∃ first others, word = first ++ others ∧ item.Denotes atoms first ∧
        (Expr.seq rest).Denotes atoms others := by
  constructor
  · rintro ⟨⟩
    exact ⟨_, _, rfl, by assumption, by assumption⟩
  · rintro ⟨first, others, rfl, head, tail⟩
    exact .seqCons head tail

/-- A choice denotes exactly what its items denote. -/
theorem denotes_alt_iff {items : List Expr} :
    (Expr.alt items).Denotes atoms word ↔ ∃ item ∈ items, item.Denotes atoms word := by
  constructor
  · rintro ⟨⟩
    exact ⟨_, by assumption, by assumption⟩
  · rintro ⟨item, member, chosen⟩
    exact .alt member chosen

/-- An option denotes the empty sequence and what it holds. -/
theorem denotes_optional_iff {inner : Expr} :
    (Expr.optional inner).Denotes atoms word ↔ word = [] ∨ inner.Denotes atoms word := by
  constructor
  · intro denoted
    cases denoted with
    | absent => exact .inl rfl
    | present body => exact .inr body
  · rintro (rfl | body)
    · exact .absent inner
    · exact .present body

/-- A repetition denotes exactly the sequences that divide into as many parts as it allows. -/
theorem denotes_repetition_iff {inner : Expr} {min : Nat} {max : Option Nat} :
    (Expr.repetition inner min max).Denotes atoms word ↔
      ∃ parts : List (List α), word = parts.flatten ∧ min ≤ parts.length ∧
        (∀ bound ∈ max, parts.length ≤ bound) ∧ ∀ part ∈ parts, inner.Denotes atoms part := by
  constructor
  · intro denoted
    cases denoted with
    | repetition parts least most each => exact ⟨parts, rfl, least, most, each⟩
  · rintro ⟨parts, rfl, least, most, each⟩
    exact .repetition parts least most each

end Expr

/-- The sequences that symbols of flat rules denote, one after the other, where nodes have
nonterminals. The rules of nodes are left as they stand, and nested expressions are looked into. -/
inductive Rules.Denotes (rules : Rules) (rule : NodeId → Nat) (atoms : Atoms α) :
    List Symbol → List α → Prop where
  /-- No symbol denotes the empty sequence. -/
  | nil : Denotes rules rule atoms [] []
  /-- A literal denotes what it stands for. -/
  | literal {text : String} {rest : List Symbol} {first others : List α}
      (head : atoms.literal text first) (tail : Denotes rules rule atoms rest others) :
      Denotes rules rule atoms (.literal text :: rest) (first ++ others)
  /-- The value terminal denotes what it stands for. -/
  | value {rest : List Symbol} {first others : List α} (head : atoms.value first)
      (tail : Denotes rules rule atoms rest others) :
      Denotes rules rule atoms (.value :: rest) (first ++ others)
  /-- The nonterminal of a node denotes what its rule stands for. -/
  | named {id : NodeId} {rest : List Symbol} {first others : List α}
      (named : rules.label (rule id) = .named id) (head : atoms.rule id first)
      (tail : Denotes rules rule atoms rest others) :
      Denotes rules rule atoms (.nonterminal (rule id) :: rest) (first ++ others)
  /-- Any other nonterminal denotes what its alternatives denote. -/
  | nested {index : Nat} {alternative rest : List Symbol} {first others : List α}
      (nested : ∀ id, rules.label index ≠ .named id)
      (member : alternative ∈ rules.alternatives index)
      (body : Denotes rules rule atoms alternative first)
      (tail : Denotes rules rule atoms rest others) :
      Denotes rules rule atoms (.nonterminal index :: rest) (first ++ others)

namespace Rules

variable {rules : Rules} {rule : NodeId → Nat} {atoms : Atoms α} {word : List α}

/-- No symbol denotes only the empty sequence. -/
theorem denotes_nil_iff : rules.Denotes rule atoms [] word ↔ word = [] := by
  constructor
  · rintro ⟨⟩
    rfl
  · rintro rfl
    exact .nil

/-- What symbols denote, followed by what other symbols denote, is denoted by all of them. -/
theorem Denotes.append {first others : List Symbol} {before after : List α}
    (head : rules.Denotes rule atoms first before)
    (tail : rules.Denotes rule atoms others after) :
    rules.Denotes rule atoms (first ++ others) (before ++ after) := by
  induction head with
  | nil => exact tail
  | literal stands _ ih =>
    rw [List.append_assoc]
    exact .literal stands ih
  | value stands _ ih =>
    rw [List.append_assoc]
    exact .value stands ih
  | named label stands _ ih =>
    rw [List.append_assoc]
    exact .named label stands ih
  | nested label member body _ _ ih =>
    rw [List.append_assoc]
    exact .nested label member body ih

/-- What symbols denote divides into what the first of them and what the others denote. -/
theorem denotes_cons_iff {symbol : Symbol} {rest : List Symbol} :
    rules.Denotes rule atoms (symbol :: rest) word ↔
      ∃ first others, word = first ++ others ∧ rules.Denotes rule atoms [symbol] first ∧
        rules.Denotes rule atoms rest others := by
  constructor
  · intro denoted
    cases denoted with
    | literal stands tail =>
      exact ⟨_, _, rfl, by simpa using Denotes.literal stands .nil, tail⟩
    | value stands tail => exact ⟨_, _, rfl, by simpa using Denotes.value stands .nil, tail⟩
    | named label stands tail =>
      exact ⟨_, _, rfl, by simpa using Denotes.named label stands .nil, tail⟩
    | nested label member body tail =>
      exact ⟨_, _, rfl, by simpa using Denotes.nested label member body .nil, tail⟩
  · rintro ⟨first, others, rfl, head, tail⟩
    exact head.append tail

/-- What symbols denote divides into what some of them and what the others denote. -/
theorem denotes_append_iff {first others : List Symbol} :
    rules.Denotes rule atoms (first ++ others) word ↔
      ∃ before after, word = before ++ after ∧ rules.Denotes rule atoms first before ∧
        rules.Denotes rule atoms others after := by
  constructor
  · intro denoted
    induction first generalizing word with
    | nil => exact ⟨[], word, rfl, .nil, denoted⟩
    | cons symbol rest ih =>
      obtain ⟨start, more, rfl, head, tail⟩ := denotes_cons_iff.1 denoted
      obtain ⟨before, after, rfl, middle, last⟩ := ih tail
      exact ⟨start ++ before, after, (List.append_assoc ..).symm, head.append middle, last⟩
  · rintro ⟨before, after, rfl, head, tail⟩
    exact head.append tail

/-- A literal denotes exactly what it stands for. -/
theorem denotes_literal_iff {text : String} :
    rules.Denotes rule atoms [.literal text] word ↔ atoms.literal text word := by
  constructor
  · intro denoted
    cases denoted with
    | literal stands tail =>
      cases tail
      simpa using stands
  · intro stands
    have denoted : rules.Denotes rule atoms _ _ := .literal stands .nil
    simpa using denoted

/-- The value terminal denotes exactly what it stands for. -/
theorem denotes_value_iff : rules.Denotes rule atoms [.value] word ↔ atoms.value word := by
  constructor
  · intro denoted
    cases denoted with
    | value stands tail =>
      cases tail
      simpa using stands
  · intro stands
    have denoted : rules.Denotes rule atoms _ _ := .value stands .nil
    simpa using denoted

/-- The nonterminal of a node denotes exactly what the rule of the node stands for. -/
theorem denotes_named_iff {id : NodeId} (label : rules.label (rule id) = .named id) :
    rules.Denotes rule atoms [.nonterminal (rule id)] word ↔ atoms.rule id word := by
  constructor
  · intro denoted
    generalize same : [Symbol.nonterminal (rule id)] = symbols at denoted
    cases denoted with
    | nil | literal | value => cases same
    | named other stands tail =>
      obtain ⟨index, rfl⟩ : rule id = rule _ ∧ [] = _ := by simpa using same
      rw [← index, label] at other
      cases other
      cases tail
      simpa using stands
    | nested other =>
      cases same
      exact absurd label (other id)
  · intro stands
    simpa using Denotes.named label stands .nil

/-- A nonterminal of no node denotes exactly what its alternatives denote. -/
theorem denotes_nested_iff {index : Nat} (label : ∀ id, rules.label index ≠ .named id) :
    rules.Denotes rule atoms [.nonterminal index] word ↔
      ∃ alternative ∈ rules.alternatives index, rules.Denotes rule atoms alternative word := by
  constructor
  · intro denoted
    cases denoted with
    | named other => exact absurd other (label _)
    | nested _ member body tail =>
      cases tail
      exact ⟨_, member, by simpa using body⟩
  · rintro ⟨alternative, member, body⟩
    simpa using Denotes.nested label member body .nil

/-- A symbol some number of times denotes that number of parts that it denotes. -/
theorem denotes_replicate_iff {count : Nat} {symbol : Symbol} :
    rules.Denotes rule atoms (List.replicate count symbol) word ↔
      ∃ parts : List (List α), word = parts.flatten ∧ parts.length = count ∧
        ∀ part ∈ parts, rules.Denotes rule atoms [symbol] part := by
  induction count generalizing word with
  | zero =>
    rw [List.replicate_zero, denotes_nil_iff]
    constructor
    · rintro rfl
      exact ⟨[], rfl, rfl, by simp⟩
    · rintro ⟨parts, rfl, none, _⟩
      rw [List.length_eq_zero_iff.1 none, List.flatten_nil]
  | succ count ih =>
    rw [List.replicate_succ, denotes_cons_iff]
    constructor
    · rintro ⟨first, others, rfl, head, tail⟩
      obtain ⟨parts, rfl, number, each⟩ := ih.1 tail
      exact ⟨first :: parts, rfl, by simp [number], by simpa using ⟨head, each⟩⟩
    · rintro ⟨parts, rfl, number, each⟩
      cases parts with
      | nil => cases number
      | cons first parts =>
        exact ⟨first, parts.flatten, rfl, each first List.mem_cons_self,
          ih.2 ⟨parts, rfl, by simpa using number, fun part member =>
            each part (List.mem_cons_of_mem _ member)⟩⟩

end Rules

end CommandGrammar
