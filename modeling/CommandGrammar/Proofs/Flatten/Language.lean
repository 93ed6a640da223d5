import Mathlib
import CommandGrammar.Grammar.Language
import CommandGrammar.Chart.Language
import CommandGrammar.Proofs.Flatten.Shape

/-!
# The flat rules of a grammar

In the flat rules of a closed grammar the production of every node has its nonterminal,
and what the alternatives of this nonterminal denote is what the production does. For
languages it follows that a node derives the same tokens in the grammar and in its flat
rules, whether its productions are recursive, cyclic or empty.
-/

namespace CommandGrammar

variable {α : Type}

namespace Flatten

variable {rule : NodeId → Nat} {next : Nat}

/-- There is one nonterminal for each production. -/
theorem length_productions {productions : List Production} :
    (Flatten.productions rule next productions).1.length = productions.length := by
  induction productions generalizing next with
  | nil => rfl
  | cons production rest ih => simp [Flatten.productions, ih]

/-- The nonterminal of a production has the alternatives of its expression, whose nonterminals
are among those made for all productions. -/
theorem getElem?_productions (rule : NodeId → Nat) (next : Nat) {productions : List Production}
    {place : Nat} {production : Production} (found : productions[place]? = some production) :
    ∃ number, (Flatten.productions rule next productions).1[place]? =
        some ⟨.named production.id, (alternatives rule number production.expr).1⟩ ∧
      ∀ property, Placed property next (Flatten.productions rule next productions).2 →
        Placed property number (alternatives rule number production.expr).2 := by
  induction productions generalizing place next with
  | nil => simp at found
  | cons head rest ih =>
    cases place with
    | zero =>
      obtain rfl : head = production := by simpa using found
      exact ⟨next, rfl, fun property placed => (placed_append_iff.1 placed).1⟩
    | succ place =>
      obtain ⟨number, same, inside⟩ := ih (next + (alternatives rule next head.expr).2.length)
        (by simpa using found)
      exact ⟨number, same, fun property placed => inside property (placed_append_iff.1 placed).2⟩

/-- The nonterminals made for productions have a property if those made for each of them do. -/
theorem placed_productions {rules : Rules} {property : Nat → Nonterminal → Prop}
    {productions : List Production}
    (each : ∀ production ∈ productions, ∀ next,
      Placed rules.Has next (alternatives rule next production.expr).2 →
        Placed property next (alternatives rule next production.expr).2)
    (placed : Placed rules.Has next (Flatten.productions rule next productions).2) :
    Placed property next (Flatten.productions rule next productions).2 := by
  induction productions generalizing next with
  | nil => exact placed_nil
  | cons head rest ih =>
    rw [Flatten.productions] at placed ⊢
    obtain ⟨first, others⟩ := placed_append_iff.1 placed
    have own := each head List.mem_cons_self next first
    exact placed_append_iff.2 ⟨own, ih (fun production member =>
      each production (List.mem_cons_of_mem _ member)) others⟩

end Flatten

namespace Grammar

variable {grammar : Grammar}

/-- The number of the nonterminal of a node. -/
def number (grammar : Grammar) (id : NodeId) : Nat := grammar.ids.idxOf id

/-- Every bounded repetition of the grammar allows some number of parts. -/
def isBounded (grammar : Grammar) : Bool := grammar.productions.all (·.expr.isBounded)

/-- The production of a node stands where the node's number says. -/
theorem getElem?_number {id : NodeId} {production : Production}
    (found : grammar.production? id = some production) :
    grammar.productions[grammar.number id]? = some production := by
  unfold production? at found
  unfold number ids
  generalize grammar.productions = productions at found ⊢
  induction productions with
  | nil => simp at found
  | cons head rest ih =>
    rw [List.find?_cons] at found
    rw [List.map_cons, List.idxOf_cons]
    cases same : head.id == id with
    | true =>
      rw [same] at found
      simpa using found
    | false =>
      rw [same] at found
      simpa using ih found

/-- The production of a node is one for the node. -/
theorem id_of_production? {id : NodeId} {production : Production}
    (found : grammar.production? id = some production) : production.id = id := by
  simpa using List.find?_some found

/-- A node with a production has one. -/
theorem production?_isSome {id : NodeId} (known : id ∈ grammar.ids) :
    ∃ production, grammar.production? id = some production := by
  obtain ⟨production, member, rfl⟩ := List.mem_map.1 known
  rw [← Option.isSome_iff_exists, production?, List.find?_isSome]
  exact ⟨production, member, by simp⟩

/-- The productions of nodes are productions. -/
theorem mem_of_production? {id : NodeId} {production : Production}
    (found : grammar.production? id = some production) : production ∈ grammar.productions :=
  List.mem_of_find?_eq_some found

/-- A node with a production is one of the grammar. -/
theorem mem_ids_of_production? {id : NodeId} {production : Production}
    (found : grammar.production? id = some production) : id ∈ grammar.ids :=
  id_of_production? found ▸ List.mem_map_of_mem (mem_of_production? found)

/-- The start node of a closed grammar has a production. -/
theorem start_known (closed : grammar.isClosed = true) : grammar.start ∈ grammar.ids := by
  rw [isClosed, Bool.and_eq_true] at closed
  exact List.contains_iff_mem.1 closed.1

/-- The nodes that productions of a closed grammar refer to have productions. -/
theorem references_known (closed : grammar.isClosed = true) {production : Production}
    (member : production ∈ grammar.productions) : production.expr.references ⊆ grammar.ids := by
  intro id referred
  rw [isClosed, Bool.and_eq_true, List.all_eq_true] at closed
  exact List.contains_iff_mem.1 (List.all_eq_true.1 (closed.2 production member) id referred)

/-- The nonterminals of the flat rules are those of the productions and those of their parts. -/
theorem placed_has (grammar : Grammar) :
    Placed (Rules.ofGrammar grammar).Has 0
        (Flatten.productions grammar.number grammar.size grammar.productions).1 ∧
      Placed (Rules.ofGrammar grammar).Has grammar.size
        (Flatten.productions grammar.number grammar.size grammar.productions).2 := by
  have all := Rules.placed_has (Rules.ofGrammar grammar)
  obtain ⟨named, others⟩ := placed_append_iff.1 all
  rw [Nat.zero_add] at others
  refine ⟨named, ?_⟩
  rwa [Flatten.length_productions] at others

/-- The nonterminal of a node stands for it, and its alternatives are those of the production. -/
theorem has_number {id : NodeId} {production : Production}
    (found : grammar.production? id = some production) :
    ∃ next, (Rules.ofGrammar grammar).Has (grammar.number id)
        ⟨.named id, (Flatten.alternatives grammar.number next production.expr).1⟩ ∧
      Placed (Rules.ofGrammar grammar).Has next
        (Flatten.alternatives grammar.number next production.expr).2 := by
  obtain ⟨named, others⟩ := grammar.placed_has
  obtain ⟨next, same, inside⟩ := Flatten.getElem?_productions grammar.number grammar.size
    (getElem?_number found)
  have has := named _ _ same
  rw [Nat.zero_add, id_of_production? found] at has
  exact ⟨next, has, inside _ others⟩

/-- The nonterminals of known nodes stand for them. -/
theorem label_number {id : NodeId} (known : id ∈ grammar.ids) :
    (Rules.ofGrammar grammar).label (grammar.number id) = .named id := by
  obtain ⟨production, found⟩ := production?_isSome known
  obtain ⟨next, has, _⟩ := has_number found
  exact has.label

/-- The nodes of the grammar have their nonterminals. -/
theorem resolves (grammar : Grammar) :
    (Rules.ofGrammar grammar).Resolves grammar.number grammar.ids :=
  fun _ known => label_number known

/-- The alternatives of a node denote what its production does. -/
theorem alternatives_stand (closed : grammar.isClosed = true) (bounded : grammar.isBounded = true)
    {id : NodeId} {production : Production} (found : grammar.production? id = some production)
    (atoms : Atoms α) (word : List α) :
    (∃ symbols ∈ (Rules.ofGrammar grammar).alternatives (grammar.number id),
      (Rules.ofGrammar grammar).Denotes grammar.number atoms symbols word) ↔
        production.expr.Denotes atoms word := by
  obtain ⟨next, has, placed⟩ := has_number found
  have member := mem_of_production? found
  rw [has.alternatives]
  exact Rules.alternatives_stand production.expr next
    (List.all_eq_true.1 bounded production member)
    (fun id referred => grammar.resolves id (references_known closed member referred)) placed word

/-- A nonterminal of the flat rules of a grammar is that of a production or is made for a part of
one, so it has a property if all of these do. -/
theorem property_of_has {property : Nat → Nonterminal → Prop}
    (named : ∀ production ∈ grammar.productions, ∀ index next, Placed (Rules.ofGrammar grammar).Has
        next (Flatten.alternatives grammar.number next production.expr).2 →
      property index
        ⟨.named production.id, (Flatten.alternatives grammar.number next production.expr).1⟩)
    (parts : ∀ production ∈ grammar.productions, ∀ next, Placed (Rules.ofGrammar grammar).Has
        next (Flatten.alternatives grammar.number next production.expr).2 →
      Placed property next (Flatten.alternatives grammar.number next production.expr).2)
    {index : Nat} {nonterminal : Nonterminal}
    (has : (Rules.ofGrammar grammar).Has index nonterminal) : property index nonterminal := by
  obtain ⟨_, others⟩ := grammar.placed_has
  have listed : (Flatten.productions grammar.number grammar.size grammar.productions).1 ++
      (Flatten.productions grammar.number grammar.size grammar.productions).2 =
        (Rules.ofGrammar grammar).nonterminals.toList := rfl
  unfold Rules.Has at has
  rw [← Array.getElem?_toList, ← listed] at has
  by_cases below : index < grammar.size
  · rw [List.getElem?_append_left (by rwa [Flatten.length_productions])] at has
    have found := List.getElem?_eq_getElem below
    obtain ⟨next, same, inside⟩ := Flatten.getElem?_productions grammar.number grammar.size
      found
    rw [same] at has
    cases has
    exact named _ (List.mem_of_getElem? found) index next (inside _ others)
  · have past := not_lt.1 below
    rw [List.getElem?_append_right (by rwa [Flatten.length_productions])] at has
    rw [Flatten.length_productions] at has
    have own := Flatten.placed_productions parts others _ _ has
    rwa [show grammar.size + (index - grammar.productions.length) = index from
      Nat.add_sub_cancel' past] at own

/-- All nonterminals of the flat rules of a closed grammar have the shape. -/
theorem shaped (closed : grammar.isClosed = true) {index : Nat} {nonterminal : Nonterminal}
    (has : (Rules.ofGrammar grammar).Has index nonterminal) :
    (Rules.ofGrammar grammar).Shaped grammar.number grammar.ids index nonterminal := by
  have made : ∀ production ∈ grammar.productions, ∀ next, Placed (Rules.ofGrammar grammar).Has
      next (Flatten.alternatives grammar.number next production.expr).2 → _ :=
    fun production member next placed => Rules.alternatives_shaped grammar.resolves
      production.expr next (references_known closed member) placed
  refine property_of_has (fun production member index next placed => ?_)
    (fun production member next placed => (made production member next placed).2) has
  have plain := (made production member next placed).1
  exact ⟨by simp, fun alternative listed symbol inside =>
    (plain alternative listed symbol inside).1⟩

/-- The stars of the flat rules of a closed grammar have the shape of stars. -/
theorem starShaped (closed : grammar.isClosed = true) : (Rules.ofGrammar grammar).StarShaped := by
  have star : ∀ {index item}, (Rules.ofGrammar grammar).label index = .star item →
      (Rules.ofGrammar grammar).alternatives index = [[.nonterminal index, item], []] ∧
        (Rules.ofGrammar grammar).IsPlain grammar.number grammar.ids item := by
    intro index item label
    obtain ⟨nonterminal, has⟩ := Rules.has_of_label label (by simp)
    rw [has.label] at label
    rw [has.alternatives]
    exact (shaped closed has).star item label
  exact ⟨fun label => (star label).1, fun label => (star label).2.2 _ _ rfl⟩

/-- The symbols of the flat rules of a closed grammar stand for nodes only as the nonterminals of
its nodes. -/
theorem proper (closed : grammar.isClosed = true) {index : Nat} {alternative : List Symbol}
    (member : alternative ∈ (Rules.ofGrammar grammar).alternatives index) {symbol : Symbol}
    (inside : symbol ∈ alternative) :
    (Rules.ofGrammar grammar).IsProper grammar.number grammar.ids symbol := by
  have has : (Rules.ofGrammar grammar).Has index _ :=
    Array.getElem?_eq_getElem (Rules.lt_size_of_mem_alternatives member)
  rw [has.alternatives] at member
  exact (shaped closed has).proper alternative member symbol inside

/-- The nonterminal of a node stands for the node. -/
theorem isProper_number {id : NodeId} (known : id ∈ grammar.ids) :
    ∀ symbol ∈ [Symbol.nonterminal (grammar.number id)],
      (Rules.ofGrammar grammar).IsProper grammar.number grammar.ids symbol := by
  rintro _ member _ rfl
  obtain same : _ = grammar.number id := by simpa using member
  exact .inl ⟨id, known, same⟩

/-! ## Languages -/

/-- Tokens as atoms: a literal stands for its text, the value terminal for any token, and the rule
of a node for what is given. -/
def tokenAtoms (rule : NodeId → List String → Prop) : Atoms String where
  literal text tokens := tokens = [text]
  value tokens := ∃ token, tokens = [token]
  rule := rule

/-- An expression derives what it denotes, if rules stand for what they derive. -/
theorem derives_of_denotes {expr : Expr} {tokens : List String}
    (denoted : expr.Denotes (tokenAtoms fun id => grammar.Derives (.rule id)) tokens) :
    grammar.Derives expr tokens := by
  induction denoted with
  | literal stands => exact derives_literal_iff.2 stands
  | value stands => exact derives_value_iff.2 stands
  | rule stands => exact stands
  | seqNil => exact .seqNil
  | seqCons _ _ headIH tailIH => exact .seqCons headIH tailIH
  | alt member _ ih => exact .alt member ih
  | absent inner => exact .absent inner
  | present _ ih => exact .present ih
  | repetition parts least most _ ih => exact .repetition parts least most ih

/-- Symbols derive what they denote, if rules stand for what their nonterminals derive. -/
theorem flat_of_denotes {rules : Rules} {rule : NodeId → Nat} {stands : NodeId → List String → Prop}
    (flat : ∀ {id word}, stands id word → rules.Derives [.nonterminal (rule id)] word)
    {symbols : List Symbol} {tokens : List String}
    (denoted : rules.Denotes rule (tokenAtoms stands) symbols tokens) :
    rules.Derives symbols tokens := by
  induction denoted with
  | nil => exact .nil
  | literal same _ ih =>
    obtain rfl := same
    exact .terminal (if_pos rfl) ih
  | value some _ ih =>
    obtain ⟨token, rfl⟩ := some
    exact .terminal rfl ih
  | named _ stands _ ih => exact (flat stands).append ih
  | nested _ member _ _ bodyIH tailIH => exact .nonterminal member bodyIH tailIH

/-- Symbols denote what they derive, if rules stand for what they derive in the grammar. -/
theorem denotes_of_flat (closed : grammar.isClosed = true) (bounded : grammar.isBounded = true)
    {symbols : List Symbol} {tokens : List String}
    (derived : (Rules.ofGrammar grammar).Derives symbols tokens)
    (proper : ∀ symbol ∈ symbols,
      (Rules.ofGrammar grammar).IsProper grammar.number grammar.ids symbol) :
    (Rules.ofGrammar grammar).Denotes grammar.number
      (tokenAtoms fun id => grammar.Derives (.rule id)) symbols tokens := by
  induction derived with
  | nil => exact .nil
  | @terminal symbol token kind rest others matched _ ih =>
    have tail := ih fun symbol member => proper symbol (List.mem_cons_of_mem _ member)
    cases symbol with
    | literal text =>
      have same : text = token := by
        by_contra differs
        simp [Symbol.matches?, differs] at matched
      have stands : (tokenAtoms fun id => grammar.Derives (.rule id)).literal text [token] := by
        rw [same]
        rfl
      exact .literal stands tail
    | value =>
      have stands : (tokenAtoms fun id => grammar.Derives (.rule id)).value [token] := ⟨token, rfl⟩
      exact .value stands tail
    | nonterminal => cases matched
  | @nonterminal index alternative rest first others member body _ bodyIH tailIH =>
    have inner := bodyIH fun symbol inside => Grammar.proper closed member inside
    have tail := tailIH fun symbol member => proper symbol (List.mem_cons_of_mem _ member)
    rcases proper _ List.mem_cons_self index rfl with ⟨id, known, rfl⟩ | nested
    · obtain ⟨production, found⟩ := production?_isSome known
      have denoted := (alternatives_stand closed bounded found _ _).1 ⟨alternative, member, inner⟩
      exact .named (label_number known) (.rule found (derives_of_denotes denoted)) tail
    · exact .nested nested member inner tail

/-- An expression denotes the tokens that it derives, if rules stand for what their productions
denote. -/
theorem denotes_of_derives {stands : NodeId → List String → Prop}
    (named : ∀ {id production word}, grammar.production? id = some production →
      production.expr.Denotes (tokenAtoms stands) word → stands id word)
    {expr : Expr} {tokens : List String} (derived : grammar.Derives expr tokens) :
    expr.Denotes (tokenAtoms stands) tokens := by
  induction derived with
  | literal text => exact Expr.denotes_literal_iff.2 rfl
  | value token => exact Expr.denotes_value_iff.2 ⟨token, rfl⟩
  | rule found _ ih => exact Expr.denotes_rule_iff.2 (named found ih)
  | seqNil => exact .seqNil
  | seqCons _ _ headIH tailIH => exact .seqCons headIH tailIH
  | alt member _ ih => exact .alt member ih
  | absent inner => exact .absent inner
  | present _ ih => exact .present ih
  | repetition parts least most _ ih => exact .repetition parts least most ih

/-- An expression denotes the tokens that it derives, and no others, if rules stand for what they
derive. -/
theorem denotes_iff_derives {expr : Expr} {tokens : List String} :
    expr.Denotes (tokenAtoms fun id => grammar.Derives (.rule id)) tokens ↔
      grammar.Derives expr tokens :=
  ⟨derives_of_denotes, denotes_of_derives fun found denoted =>
    .rule found (derives_of_denotes denoted)⟩

/-- The nonterminal of a node derives what its production denotes, if rules stand for what their
nonterminals derive. -/
theorem flat_of_production (closed : grammar.isClosed = true) (bounded : grammar.isBounded = true)
    {id : NodeId} {production : Production} {tokens : List String}
    (found : grammar.production? id = some production)
    (denoted : production.expr.Denotes (tokenAtoms fun id =>
      (Rules.ofGrammar grammar).Derives [.nonterminal (grammar.number id)]) tokens) :
    (Rules.ofGrammar grammar).Derives [.nonterminal (grammar.number id)] tokens := by
  obtain ⟨symbols, member, body⟩ := (alternatives_stand closed bounded found _ _).2 denoted
  exact Rules.derives_nonterminal_iff.2 ⟨symbols, member, flat_of_denotes (fun derived => derived) body⟩

/-- A node of a closed grammar derives the same tokens in the grammar and in its flat rules. -/
theorem flat_derives_iff (closed : grammar.isClosed = true) (bounded : grammar.isBounded = true)
    {id : NodeId} (known : id ∈ grammar.ids) {tokens : List String} :
    (Rules.ofGrammar grammar).Derives [.nonterminal (grammar.number id)] tokens ↔
      grammar.Derives (.rule id) tokens := by
  constructor
  · intro derived
    have denoted := denotes_of_flat closed bounded derived (isProper_number known)
    exact (Rules.denotes_named_iff (label_number known)).1 denoted
  · intro derived
    exact Expr.denotes_rule_iff.1 (denotes_of_derives (flat_of_production closed bounded) derived)

end Grammar

end CommandGrammar
