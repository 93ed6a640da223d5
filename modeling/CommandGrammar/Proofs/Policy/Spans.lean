import Mathlib
import CommandGrammar.Grammar.Language

/-!
# Expressions between places

Which tokens of a line an expression derives is asked for two places at a time. The
sequences and repetitions of a grammar divide at a place between the two, and a
repetition is taken apart one item at a time, its bounds going down with each.
-/

namespace CommandGrammar

/-- The tokens between two places are of a language. -/
def Between (tokens : List String) (language : List String → Prop) (start stop : Nat) : Prop :=
  start ≤ stop ∧ stop ≤ tokens.length ∧ language (tokens.extract start stop)

variable {tokens : List String} {start stop : Nat}

/-- The tokens between two places are those up to a third place and those after it. -/
theorem extract_append {split : Nat} (first : start ≤ split) (second : split ≤ stop) :
    tokens.extract start split ++ tokens.extract split stop = tokens.extract start stop := by
  simp only [List.extract_eq_take_drop]
  have total : stop - start = (split - start) + (stop - split) := by omega
  rw [total, List.take_add, List.drop_drop]
  congr 3
  omega

/-- Tokens between places that divide in two do so at a place. -/
theorem between_append_iff {head tail : List String → Prop} :
    Between tokens (fun word => ∃ first others, word = first ++ others ∧ head first ∧ tail others)
        start stop ↔
      ∃ split, Between tokens head start split ∧ Between tokens tail split stop := by
  constructor
  · rintro ⟨ordered, inside, first, others, same, inHead, inTail⟩
    have total : first.length + others.length = stop - start := by
      have lengths := congrArg List.length same
      rw [List.length_append, List.extract_eq_take_drop, List.length_take,
        List.length_drop] at lengths
      omega
    have split : start + first.length ≤ stop := by omega
    have both : tokens.extract start (start + first.length) ++
        tokens.extract (start + first.length) stop = tokens.extract start stop :=
      extract_append (Nat.le_add_right _ _) split
    have size : (tokens.extract start (start + first.length)).length = first.length := by
      rw [List.extract_eq_take_drop, List.length_take, List.length_drop]
      omega
    obtain ⟨sameFirst, sameOthers⟩ := List.append_inj (both.trans same) size
    refine ⟨start + first.length, ⟨Nat.le_add_right _ _, by omega, ?_⟩, split, inside, ?_⟩
    · rwa [sameFirst]
    · rwa [sameOthers]
  · rintro ⟨split, ⟨first, _, inHead⟩, second, inside, inTail⟩
    exact ⟨Nat.le_trans first second, inside, _, _, (extract_append first second).symm, inHead,
      inTail⟩

/-- No token stands between two places exactly if they are the same. -/
theorem between_nil_iff (inside : start ≤ tokens.length) :
    Between tokens (· = []) start stop ↔ start = stop := by
  constructor
  · rintro ⟨ordered, below, empty⟩
    have length := congrArg List.length empty
    rw [List.extract_eq_take_drop, List.length_take, List.length_drop, List.length_nil] at length
    omega
  · rintro rfl
    exact ⟨Nat.le_refl _, inside, by simp [List.extract_eq_take_drop]⟩

/-- One token stands between a place and the next one. -/
theorem between_singleton_iff {text : String} :
    Between tokens (· = [text]) start stop ↔ stop = start + 1 ∧ tokens[start]? = some text := by
  constructor
  · rintro ⟨ordered, below, only⟩
    have length := congrArg List.length only
    rw [List.extract_eq_take_drop, List.length_take, List.length_drop,
      List.length_singleton] at length
    have first := congrArg (·[0]?) only
    simp only [List.extract_eq_take_drop, List.getElem?_cons_zero] at first
    rw [List.getElem?_take_of_lt (by omega), List.getElem?_drop, Nat.add_zero] at first
    exact ⟨by omega, first⟩
  · rintro ⟨rfl, found⟩
    obtain ⟨below, rfl⟩ := List.getElem?_eq_some_iff.1 found
    refine ⟨Nat.le_succ _, below, ?_⟩
    rw [List.extract_eq_take_drop, Nat.add_sub_cancel_left, List.drop_eq_getElem_cons below,
      List.take_succ_cons, List.take_zero]

/-- Tokens between places are of a language that is the same as another if they are of the other. -/
theorem between_congr {language other : List String → Prop}
    (same : ∀ word, language word ↔ other word) :
    Between tokens language start stop ↔ Between tokens other start stop :=
  and_congr_right fun _ => and_congr_right fun _ => same _

namespace Grammar

/-- An expression derives the tokens between two places. -/
def Spans (grammar : Grammar) (tokens : List String) (expr : Expr) (start stop : Nat) : Prop :=
  Between tokens (grammar.Derives expr) start stop

variable {grammar : Grammar}

/-- An expression derives tokens from a place to a later one. -/
theorem Spans.le {expr : Expr} (spans : grammar.Spans tokens expr start stop) : start ≤ stop :=
  spans.1

/-- An expression derives tokens up to a place among them. -/
theorem Spans.le_length {expr : Expr} (spans : grammar.Spans tokens expr start stop) :
    stop ≤ tokens.length :=
  spans.2.1

/-- A literal derives the token that it is. -/
theorem spans_literal_iff {text : String} :
    grammar.Spans tokens (.literal text) start stop ↔
      stop = start + 1 ∧ tokens[start]? = some text := by
  rw [Spans, between_congr fun _ => derives_literal_iff, between_singleton_iff]

/-- The value terminal derives each token. -/
theorem spans_value_iff :
    grammar.Spans tokens .value start stop ↔
      stop = start + 1 ∧ ∃ token, tokens[start]? = some token := by
  have each : grammar.Spans tokens .value start stop ↔
      ∃ token, Between tokens (· = [token]) start stop := by
    rw [Spans, between_congr fun _ => derives_value_iff]
    simp only [Between, ← exists_and_left]
  rw [each]
  simp only [between_singleton_iff, exists_and_left]

/-- A rule derives what its production derives. -/
theorem spans_rule_iff {id : NodeId} {production : Production}
    (found : grammar.production? id = some production) :
    grammar.Spans tokens (.rule id) start stop ↔
      grammar.Spans tokens production.expr start stop := by
  refine between_congr fun word => derives_rule_iff.trans ?_
  constructor
  · rintro ⟨other, same, derived⟩
    rw [found] at same
    cases same
    exact derived
  · exact fun derived => ⟨production, found, derived⟩

/-- The empty sequence derives no token. -/
theorem spans_seq_nil_iff (inside : start ≤ tokens.length) :
    grammar.Spans tokens (.seq []) start stop ↔ start = stop := by
  rw [Spans, between_congr fun _ => derives_seq_nil_iff, between_nil_iff inside]

/-- A sequence divides into its first item and the others. -/
theorem spans_seq_cons_iff {item : Expr} {rest : List Expr} :
    grammar.Spans tokens (.seq (item :: rest)) start stop ↔
      ∃ split, grammar.Spans tokens item start split ∧
        grammar.Spans tokens (.seq rest) split stop := by
  rw [Spans, between_congr fun _ => derives_seq_cons_iff]
  exact between_append_iff

/-- A choice derives what one of its items does. -/
theorem spans_alt_iff {items : List Expr} :
    grammar.Spans tokens (.alt items) start stop ↔
      ∃ item ∈ items, grammar.Spans tokens item start stop := by
  rw [Spans, between_congr fun _ => derives_alt_iff]
  constructor
  · rintro ⟨ordered, inside, item, member, derived⟩
    exact ⟨item, member, ordered, inside, derived⟩
  · rintro ⟨item, member, ordered, inside, derived⟩
    exact ⟨ordered, inside, item, member, derived⟩

/-- An option derives no token, or what it holds. -/
theorem spans_optional_iff {inner : Expr} (inside : start ≤ tokens.length) :
    grammar.Spans tokens (.optional inner) start stop ↔
      start = stop ∨ grammar.Spans tokens inner start stop := by
  rw [Spans, between_congr fun _ => derives_optional_iff, ← between_nil_iff inside]
  simp only [Spans, Between, and_or_left]

/-- A repetition is at its end, or derives an item and goes on with lower bounds. -/
theorem derives_repetition_step {inner : Expr} {min : Nat} {max : Option Nat} {word : List String} :
    grammar.Derives (.repetition inner min max) word ↔
      min = 0 ∧ word = [] ∨
        max ≠ some 0 ∧ ∃ first others, word = first ++ others ∧ grammar.Derives inner first ∧
          grammar.Derives (.repetition inner (min - 1) (max.map (· - 1))) others := by
  rw [derives_repetition_iff]
  constructor
  · rintro ⟨parts, rfl, least, most, each⟩
    cases parts with
    | nil => exact .inl ⟨Nat.le_zero.1 least, rfl⟩
    | cons part rest =>
      rw [List.length_cons] at least most
      refine .inr ⟨?_, part, rest.flatten, rfl, each part List.mem_cons_self, ?_⟩
      · rintro rfl
        exact absurd (most 0 rfl) (Nat.not_succ_le_zero _)
      · refine .repetition rest (by omega) ?_
          fun other member => each other (List.mem_cons_of_mem _ member)
        rintro _ member
        obtain ⟨bound, same, rfl⟩ := Option.map_eq_some_iff.1 member
        have enough := most bound same
        omega
  · rintro (⟨rfl, rfl⟩ | ⟨more, first, others, rfl, head, tail⟩)
    · exact ⟨[], rfl, Nat.le_refl _, fun _ _ => Nat.zero_le _, by simp⟩
    · obtain ⟨parts, rfl, least, most, each⟩ := derives_repetition_iff.1 tail
      refine ⟨first :: parts, rfl, ?_, ?_, by simpa using ⟨head, each⟩⟩
      · rw [List.length_cons]
        omega
      · rintro bound rfl
        have enough := most (bound - 1) rfl
        have positive : bound ≠ 0 := fun zero => more (congrArg some zero)
        rw [List.length_cons]
        omega

/-- A repetition is at its end, or an item ends at some place and it goes on from there. -/
theorem spans_repetition_iff {inner : Expr} {min : Nat} {max : Option Nat}
    (inside : start ≤ tokens.length) :
    grammar.Spans tokens (.repetition inner min max) start stop ↔
      min = 0 ∧ start = stop ∨
        max ≠ some 0 ∧ ∃ split, grammar.Spans tokens inner start split ∧
          grammar.Spans tokens (.repetition inner (min - 1) (max.map (· - 1))) split stop := by
  rw [Spans, between_congr fun _ => derives_repetition_step]
  simp only [Spans, ← between_append_iff, ← between_nil_iff inside]
  simp only [Between]
  constructor
  · rintro ⟨ordered, below, ⟨none, empty⟩ | ⟨more, divided⟩⟩
    · exact .inl ⟨none, ordered, below, empty⟩
    · exact .inr ⟨more, ordered, below, divided⟩
  · rintro (⟨none, ordered, below, empty⟩ | ⟨more, ordered, below, divided⟩)
    · exact ⟨ordered, below, .inl ⟨none, empty⟩⟩
    · exact ⟨ordered, below, .inr ⟨more, divided⟩⟩

end Grammar

end CommandGrammar
