import Mathlib
import CommandGrammar.Proofs.Grammar.Lowered
import CommandGrammar.Proofs.Policy.Headed

/-!
# Grammars with higher minima

One grammar may ask for more items in the repetitions that commands end with than another
one. It then derives less, and where both derive the same tokens they need not pick the
same: a higher minimum can make a shorter span the longest one that works out. What the
other grammar picks is picked by it exactly if every branch has as many branches
in it as its minimum.
-/

namespace CommandGrammar

mutual

/-- Every branch of the tree has at least as many branches in it as is asked of its rule. -/
def Tree.meets (least : NodeId → Nat) : Tree → Bool
  | .leaf _ => true
  | .branch rule children =>
    decide (least rule ≤ (branchRules children).length) && meetAll least children

/-- All branches of the trees have as many branches in them as is asked of their rules. -/
def meetAll (least : NodeId → Nat) : List Tree → Bool
  | [] => true
  | tree :: rest => tree.meets least && meetAll least rest

end

/-- Trees and further ones meet what is asked if both do. -/
theorem meetAll_append {least : NodeId → Nat} {trees others : List Tree} :
    meetAll least (trees ++ others) = (meetAll least trees && meetAll least others) := by
  induction trees with
  | nil => rfl
  | cons tree rest ih => rw [List.cons_append, meetAll, meetAll, ih, Bool.and_assoc]

/-- The expression is another one, or a word and at least a number of items of which the other one
asks for fewer. -/
inductive Expr.Tightens : Expr → Nat → Expr → Prop where
  /-- It is the same, and nothing more is asked. -/
  | same (expr : Expr) : Tightens expr 0 expr
  /-- More items are asked. -/
  | raised {item : Expr} {less least : Nat} (name : String) (max : Option Nat)
      (isItem : item.isItem = true) (ordered : less ≤ least) :
      Tightens (.seq [.literal name, .repetition item least max]) least
        (.seq [.literal name, .repetition item less max])

/-- The other expression is the tightened one with lower minima. -/
theorem Expr.Tightens.lowers {expr other : Expr} {count : Nat} (tight : expr.Tightens count other) :
    other.Lowers expr := by
  cases tight with
  | same => exact Expr.lowers_refl expr
  | raised name max isItem ordered =>
    exact .seq (.cons (.literal name)
      (.cons (.repetition max (Expr.lowers_refl _) ordered) .nil))

/-- The productions of one grammar tighten those of another one. -/
structure Grammar.Tightens (strict loose : Grammar) (least : NodeId → Nat) : Prop where
  /-- They derive from the same node. -/
  start : strict.start = loose.start
  /-- To each production of the strict one there is one of the other. -/
  loosened : ∀ id production, strict.production? id = some production →
    ∃ other, loose.production? id = some other ∧
      production.expr.Tightens (least id) other.expr
  /-- To each production of the other one there is one of the strict one. -/
  tightened : ∀ id production, loose.production? id = some production →
    ∃ other, strict.production? id = some other ∧
      other.expr.Tightens (least id) production.expr

namespace Grammar

variable {grammar strict loose : Grammar} {least : NodeId → Nat} {tokens : List String}
  {start stop : Nat}

/-- A lower minimum lets a repetition derive no less. -/
theorem Derives.lower {inner : Expr} {min less : Nat} {max : Option Nat} {word : List String}
    (derived : grammar.Derives (.repetition inner min max) word) (ordered : less ≤ min) :
    grammar.Derives (.repetition inner less max) word := by
  obtain ⟨parts, rfl, enough, most, each⟩ := derives_repetition_iff.1 derived
  exact .repetition parts (Nat.le_trans ordered enough) most each

/-- What a tightened grammar derives the other one derives. -/
theorem Tightens.derives (tightens : strict.Tightens loose least) {expr : Expr} {word : List String}
    (derived : strict.Derives expr word) : loose.Derives expr word := by
  refine derived.lowered (fun id production found => ?_) (Expr.lowers_refl expr)
  obtain ⟨other, there, tight⟩ := tightens.loosened id production found
  exact ⟨other, there, tight.lowers⟩

/-- What a tightened grammar derives between two places the other one derives. -/
theorem Tightens.spans (tightens : strict.Tightens loose least) {expr : Expr}
    (spans : strict.Spans tokens expr start stop) : loose.Spans tokens expr start stop :=
  ⟨spans.1, spans.2.1, tightens.derives spans.2.2⟩

/-- A span that is the longest for expressions that derive more is the longest. -/
theorem IsLongest.of_imp {other : Grammar} {item others more : Expr} {split : Nat}
    (longest : grammar.IsLongest tokens item more start split stop)
    (head : ∀ later, other.Spans tokens item start later → grammar.Spans tokens item start later)
    (tail : ∀ later, other.Spans tokens others later stop → grammar.Spans tokens more later stop) :
    other.IsLongest tokens item others start split stop :=
  fun later above both => longest later above ⟨head later both.1, tail later both.2⟩

/-- What is picked for a rule, or for a choice of rules, is a branch. -/
theorem Picks.branch {item : Expr} {trees : List Tree} (isItem : item.isItem = true)
    (picks : grammar.Picks tokens item start stop trees) :
    ∃ id children, trees = [.branch id children] := by
  have rule {expr : Expr} (isRule : expr.isRule = true)
      (inner : grammar.Picks tokens expr start stop trees) :
      ∃ id children, trees = [.branch id children] := by
    cases expr with
    | rule id =>
      cases inner
      exact ⟨_, _, rfl⟩
    | _ => cases isRule
  cases item with
  | rule id => exact rule rfl picks
  | alt items =>
    induction items with
    | nil => cases picks
    | cons first rest ih =>
      rw [Expr.isItem, List.all_cons, Bool.and_eq_true] at isItem
      cases picks with
      | altFirst chosen => exact rule isItem.1 chosen
      | altLater _ chosen => exact ih isItem.2 chosen
  | _ => cases isItem

/-- What is picked for a repetition of rules has as many branches as it must. -/
theorem Picks.least_le {item : Expr} {min : Nat} {max : Option Nat} {trees : List Tree}
    (isItem : item.isItem = true)
    (picks : grammar.Picks tokens (.repetition item min max) start stop trees) :
    min ≤ (branchRules trees).length := by
  generalize same : Expr.repetition item min max = expr at picks
  induction picks generalizing min max with
  | repetitionEnd =>
    cases same
    exact Nat.zero_le _
  | repetitionItem _ _ head _ _ _ ih =>
    cases same
    obtain ⟨id, children, rfl⟩ := head.branch isItem
    have others := ih rfl
    rw [List.singleton_append, branchRules, List.length_cons]
    omega
  | _ => cases same

/-- What is picked for a repetition of rules is picked for one that must have more items, if it
has as many. -/
theorem Picks.raise {item : Expr} {less min : Nat} {max : Option Nat} {trees : List Tree}
    (isItem : item.isItem = true) (ordered : less ≤ min)
    (picks : grammar.Picks tokens (.repetition item less max) start stop trees)
    (enough : min ≤ (branchRules trees).length) :
    grammar.Picks tokens (.repetition item min max) start stop trees := by
  generalize same : Expr.repetition item less max = expr at picks
  induction picks generalizing less min max with
  | repetitionEnd =>
    cases same
    obtain rfl : min = 0 := Nat.le_zero.1 enough
    exact .repetitionEnd _ _ _
  | @repetitionItem inner low high _ _ _ _ _ more below head _ longest _ ih =>
    obtain ⟨rfl, rfl, rfl⟩ : item = inner ∧ less = low ∧ max = high := by simpa using same
    obtain ⟨id, children, rfl⟩ := head.branch isItem
    rw [List.singleton_append, branchRules, List.length_cons] at enough
    have fewer : less - 1 ≤ min - 1 := by omega
    refine .repetitionItem more below head (ih fewer (by omega) rfl) ?_
    -- A place from which the stricter repetition goes on is one for the other as well.
    refine longest.of_imp (fun _ spans => spans) fun later spans => ?_
    exact ⟨spans.1, spans.2.1, spans.2.2.lower fewer⟩
  | _ => cases same

/-- What is picked for a word and items of a repetition. -/
theorem Picks.named {item : Expr} {name : String} {min : Nat} {max : Option Nat} {trees : List Tree}
    (picks : grammar.Picks tokens (.seq [.literal name, .repetition item min max]) start stop
      trees) :
    ∃ leaf others, trees = .leaf leaf :: others ∧
      grammar.Picks tokens (.literal name) start (start + 1) [.leaf leaf] ∧
      grammar.Picks tokens (.repetition item min max) (start + 1) stop others := by
  cases picks with
  | seqCons head tail _ =>
    cases head with
    | literal found =>
      cases tail with
      | seqCons items last _ =>
        cases last
        exact ⟨_, _, by rw [List.append_nil]; rfl, .literal found, items⟩

/-- A word and what is picked for items of a repetition are picked. -/
theorem Picks.ofNamed {item : Expr} {name : String} {min : Nat} {max : Option Nat} {leaf : Leaf}
    {trees : List Tree} (word : grammar.Picks tokens (.literal name) start (start + 1) [.leaf leaf])
    (items : grammar.Picks tokens (.repetition item min max) (start + 1) stop trees) :
    grammar.Picks tokens (.seq [.literal name, .repetition item min max]) start stop
      (.leaf leaf :: trees) := by
  have all := Picks.seqCons items (.seqNil stop) ?_
  · rw [List.append_nil] at all
    refine .seqCons word all ?_
    rintro later above ⟨first, _⟩
    have one := (spans_literal_iff.1 first).1
    omega
  · rintro later above ⟨_, last⟩
    have bound := last.le
    omega

/-- What a tightened expression picks has as many branches as it asks for. -/
theorem Picks.least_of_tightens {count : Nat} {expr other : Expr} {trees : List Tree}
    (tight : expr.Tightens count other) (picks : grammar.Picks tokens expr start stop trees) :
    count ≤ (branchRules trees).length := by
  cases tight with
  | same => exact Nat.zero_le _
  | raised name max isItem ordered =>
    obtain ⟨leaf, others, rfl, _, items⟩ := picks.named
    have enough := items.least_le isItem
    exact enough

/-- What an expression picks is picked by one that tightens it, if it has as many branches. -/
theorem Picks.tighten {count : Nat} {expr other : Expr} {trees : List Tree}
    (tight : expr.Tightens count other) (picks : grammar.Picks tokens other start stop trees)
    (enough : count ≤ (branchRules trees).length) : grammar.Picks tokens expr start stop trees := by
  cases tight with
  | same => exact picks
  | raised name max isItem ordered =>
    obtain ⟨leaf, others, rfl, word, items⟩ := picks.named
    exact .ofNamed word (items.raise isItem ordered enough)

/-- What a tightened grammar picks meets its minima. -/
theorem Tightens.meets (tightens : strict.Tightens loose least) {expr : Expr} {trees : List Tree}
    (picks : strict.Picks tokens expr start stop trees) : meetAll least trees = true := by
  induction picks with
  | literal | value | seqNil | absent | repetitionEnd => rfl
  | rule found body ih =>
    obtain ⟨other, _, tight⟩ := tightens.loosened _ _ found
    simp [meetAll, Tree.meets, body.least_of_tightens tight, ih]
  | seqCons _ _ _ headIH tailIH => rw [meetAll_append, headIH, tailIH]; rfl
  | altFirst _ ih => exact ih
  | altLater _ _ ih => exact ih
  | present _ ih => exact ih
  | repetitionItem _ _ _ _ _ headIH tailIH => rw [meetAll_append, headIH, tailIH]; rfl

/-- What a grammar picks is picked by one that tightens it, if it meets the minima. -/
theorem Tightens.picks (tightens : strict.Tightens loose least) {expr : Expr} {trees : List Tree}
    (picks : loose.Picks tokens expr start stop trees) (meet : meetAll least trees = true) :
    strict.Picks tokens expr start stop trees := by
  have passed {item : Expr} {first last : Nat} (refused : ¬ loose.Spans tokens item first last) :
      ¬ strict.Spans tokens item first last := fun spans => refused (tightens.spans spans)
  induction picks with
  | literal found => exact .literal found
  | value found => exact .value found
  | rule found body ih =>
    obtain ⟨other, there, tight⟩ := tightens.tightened _ _ found
    simp only [meetAll, Tree.meets, Bool.and_true, Bool.and_eq_true, decide_eq_true_eq] at meet
    exact .rule there ((ih meet.2).tighten tight meet.1)
  | seqNil place => exact .seqNil place
  | seqCons _ _ longest headIH tailIH =>
    rw [meetAll_append, Bool.and_eq_true] at meet
    exact .seqCons (headIH meet.1) (tailIH meet.2)
      (longest.of_imp (fun _ => tightens.spans) fun _ => tightens.spans)
  | altFirst _ ih => exact .altFirst (ih meet)
  | altLater refused _ ih => exact .altLater (passed refused) (ih meet)
  | absent refused => exact .absent (passed refused)
  | present _ ih => exact .present (ih meet)
  | repetitionEnd inner max place => exact .repetitionEnd inner max place
  | repetitionItem more below _ _ longest headIH tailIH =>
    rw [meetAll_append, Bool.and_eq_true] at meet
    exact .repetitionItem more below (headIH meet.1) (tailIH meet.2)
      (longest.of_imp (fun _ => tightens.spans) fun _ => tightens.spans)

/-- A tree that is picked by a grammar is picked by one that tightens it exactly if it meets the
minima. -/
theorem Tightens.picks_iff (tightens : strict.Tightens loose least) {expr : Expr}
    {trees : List Tree}
    (picks : loose.Picks tokens expr start stop trees) :
    strict.Picks tokens expr start stop trees ↔ meetAll least trees = true :=
  ⟨tightens.meets, tightens.picks picks⟩

end Grammar

end CommandGrammar
