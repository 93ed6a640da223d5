import Mathlib
import CommandGrammar.Proofs.Policy.Tails
import CommandGrammar.Proofs.Recognition

/-!
# Headed grammars

In a headed grammar no node can occur inside itself on the same span, so the reader
refuses nothing: every parse is the one that is picked. The proof is by induction on the
length of a span, since the terminal that a production begins with takes a token away
before any other node is read.
-/

namespace CommandGrammar

namespace Reading

variable {grammar : Grammar} {tokens : List String} {start stop low high : Nat}
  {fuel : Nat} {opened : List Span}

/-- No nonterminal that is open around two places is open after the first one. -/
theorem Opens.fresh (opens : Opens grammar fuel opened start stop) {block : Nat → Prop}
    {last : Nat} :
    Fresh opened block (start + 1) last := by
  intro span member after
  have around := (opens.around.outside span member).1
  omega

/-- What begins with a terminal is read as it is picked, if the nodes are read so after it. -/
theorem readsAll_head (closed : grammar.isClosed = true) (bounded : grammar.isBounded = true)
    (headed : grammar.isHeaded = true) (named : NamedReads grammar tokens (start + 1) stop)
    {expr : Expr} (head : expr.isHead = true) (fits : expr.isBounded = true)
    (within : expr.references ⊆ grammar.ids) {next : Nat}
    (placed : Placed (Rules.ofGrammar grammar).Has next
      (Flatten.sequence grammar.number next expr).2)
    (opens : Opens grammar fuel opened start stop) :
    ReadsAll grammar tokens ((ofGrammar grammar tokens).readEither
      ((ofGrammar grammar tokens).readAlternatives fuel opened))
      (Flatten.sequence grammar.number next expr).1 expr start stop := by
  have plain := (Rules.sequence_shaped grammar.resolves expr next within placed).1
  refine ⟨Rules.sequence_stands expr next fits (fun id referred => grammar.resolves id
    (within referred)) placed, fun symbol member => (plain symbol member).1, ?_⟩
  intro first last after before waits spans
  have below : first < last := isSolid_of_isHead head first last spans
  have narrow := opens.narrow after spans.le before
  have atTerminal {item : Expr} (terminal : item.isTerminal = true) (number : Nat) :
      ∃ symbol, Flatten.sequence grammar.number number item = ([symbol], []) ∧
        Reads grammar tokens ((ofGrammar grammar tokens).readEither
          ((ofGrammar grammar tokens).readAlternatives fuel opened)) symbol item first last := by
    obtain ⟨symbol, same, reads⟩ := readsIn_terminal terminal grammar.number number
    exact ⟨symbol, same, reads (fun _ => False) fuel opened first last (Nat.le_refl _)
      spans.le (Nat.le_refl _) narrow fun _ _ _ _ => not_false⟩
  by_cases terminal : expr.isTerminal = true
  · obtain ⟨symbol, same, reads⟩ := atTerminal terminal next
    rw [same] at waits ⊢
    exact (reads.all closed bounded).follows first last (Nat.le_refl _) (Nat.le_refl _) waits spans
  · cases expr with
    | literal | value => exact absurd rfl terminal
    | seq items =>
      cases items with
      | nil => cases head
      | cons item rest =>
        rw [Expr.isHead, Bool.and_eq_true] at head
        rw [Expr.isBounded, areBounded, Bool.and_eq_true] at fits
        rw [Expr.references, referencesOf, List.append_subset] at within
        obtain ⟨symbol, same, reads⟩ := atTerminal head.1 next
        rw [Flatten.sequence, Flatten.sequences, same] at placed waits ⊢
        have tails := readsAll_tails closed bounded headed named head.2 fits.2 within.2
          (placed_append_iff.1 placed).2 (Nat.succ_le_succ after) below before
          (narrow.narrow (Nat.le_succ _) below (Nat.le_refl _)) narrow.fresh
        refine (readsAll_cons closed bounded reads tails ?_).follows first last (Nat.le_refl _)
          (Nat.le_refl _) waits spans
        intro begins split later inner
        have one := stop_of_terminal head.1 inner
        omega
    | _ => cases head

/-- Items that begin with terminals are each read as they are picked. -/
theorem readsAll_heads (closed : grammar.isClosed = true) (bounded : grammar.isBounded = true)
    (headed : grammar.isHeaded = true) (named : NamedReads grammar tokens (start + 1) stop)
    {items : List Expr} (heads : items.all Expr.isHead = true) (fits : areBounded items = true)
    (within : referencesOf items ⊆ grammar.ids) {next : Nat}
    (placed : Placed (Rules.ofGrammar grammar).Has next
      (Flatten.sequences grammar.number next items).2)
    (opens : Opens grammar fuel opened start stop) :
    List.Forall₂ (fun symbols item => ReadsAll grammar tokens ((ofGrammar grammar tokens).readEither
      ((ofGrammar grammar tokens).readAlternatives fuel opened)) symbols item start stop)
      (Flatten.sequences grammar.number next items).1 items := by
  induction items generalizing next with
  | nil => exact .nil
  | cons item rest ih =>
    rw [List.all_cons, Bool.and_eq_true] at heads
    rw [areBounded, Bool.and_eq_true] at fits
    rw [referencesOf, List.append_subset] at within
    rw [Flatten.sequences] at placed ⊢
    obtain ⟨first, others⟩ := placed_append_iff.1 placed
    exact .cons (readsAll_head closed bounded headed named heads.1 fits.1 within.1 first opens)
      (ih heads.2 fits.2 within.2 others)

/-- The alternatives of a headed expression are read as it is picked, if the nodes are read so
after its first token. -/
theorem readsAny_headed (closed : grammar.isClosed = true) (bounded : grammar.isBounded = true)
    (headed : grammar.isHeaded = true) (named : NamedReads grammar tokens (start + 1) stop)
    {expr : Expr} (own : expr.isHeaded = true) (fits : expr.isBounded = true)
    (within : expr.references ⊆ grammar.ids) {next : Nat}
    (placed : Placed (Rules.ofGrammar grammar).Has next
      (Flatten.alternatives grammar.number next expr).2)
    (opens : Opens grammar fuel opened start stop) :
    ReadsAny grammar tokens ((ofGrammar grammar tokens).readEither
      ((ofGrammar grammar tokens).readAlternatives fuel opened))
      (Flatten.alternatives grammar.number next expr).1 expr start stop := by
  cases expr with
  | alt items =>
    exact readsAny_alt closed bounded
      (readsAll_heads closed bounded headed named own fits within placed opens)
  | literal | value =>
    have reads := readsAll_head closed bounded headed named rfl fits within placed opens
    exact reads.any closed bounded
  | seq items =>
    have reads := readsAll_head closed bounded headed named own fits within placed opens
    exact reads.any closed bounded
  | _ => cases own

/-- The nonterminal of a node stands for its rule. -/
theorem rule_carries {id : NodeId} (known : id ∈ grammar.ids) :
    grammar.Carries [.nonterminal (grammar.number id)] (.rule id) :=
  fun _ => (Rules.denotes_named_iff (Grammar.label_number known)).trans
    Expr.denotes_rule_iff.symm

/-- The nodes of a headed grammar are read as their rules are picked. -/
theorem namedReads (closed : grammar.isClosed = true) (bounded : grammar.isBounded = true)
    (headed : grammar.isHeaded = true) {width : Nat} (fits : high - low ≤ width) :
    NamedReads grammar tokens low high := by
  induction width generalizing low high with
  | zero =>
    intro id known fuel opened start stop above ordered below opens fresh
    refine ⟨rule_carries known, (Rules.isPlain_of_mem grammar.resolves known).1, ?_⟩
    intro first last after before _ spans
    -- A rule takes a token, so it derives nothing on a span without one.
    have moves := isSolid_rule headed id first last spans
    omega
  | succ width ih =>
    intro id known fuel opened start stop above ordered below opens fresh
    refine ⟨rule_carries known, (Rules.isPlain_of_mem grammar.resolves known).1, ?_⟩
    intro first last after before awaited spans
    have moves := isSolid_rule headed id first last spans
    obtain ⟨production, found⟩ := Grammar.production?_isSome known
    obtain ⟨next, has, placed⟩ := Grammar.has_number found
    have member := Grammar.mem_of_production? found
    have label := Grammar.label_number known
    -- What follows the first token lies on a shorter span.
    have inner : NamedReads grammar tokens (first + 1) last := ih (by omega)
    have free : (grammar.number id, first, last) ∉ opened := fun again =>
      fresh _ again after before ⟨id, label⟩
    obtain ⟨trees, taken, picks⟩ := readAlternatives_picks has
      (opens.narrow after spans.le before) free (awaited _ rfl)
      (fun less inside => readsAny_headed closed bounded headed inner
        (isHeaded_of_production? headed found) (List.all_eq_true.1 bounded production member)
        (Grammar.references_known closed member) placed inside)
      ((Grammar.spans_rule_iff found).1 spans)
    refine ⟨_, ?_, .rule found picks⟩
    have nameLabel : (ofGrammar grammar tokens).rules.label (grammar.number id) = .named id := label
    simp only [readItem, readEither, nameLabel]
    exact taken

end Reading

namespace Grammar

variable {grammar : Grammar} {tokens : List String}

/-- What is read of tokens that a headed grammar accepts is what is picked. -/
theorem whole_picks (closed : grammar.isClosed = true) (bounded : grammar.isBounded = true)
    (headed : grammar.isHeaded = true) (accepts : grammar.Accepts tokens) :
    ∃ trees, ((Table.ofGrammar grammar).reading tokens).whole (Rules.ofGrammar grammar).start =
        some trees ∧ grammar.Picks tokens (.rule grammar.start) 0 tokens.length trees := by
  have spans : grammar.Spans tokens (.rule grammar.start) 0 tokens.length := by
    have derived : grammar.Derives (.rule grammar.start) tokens := accepts
    refine ⟨Nat.zero_le _, Nat.le_refl _, ?_⟩
    simpa [List.extract_eq_take_drop] using derived
  have opens : Reading.Opens grammar ((Table.ofGrammar grammar).reading tokens).depth [] 0
      tokens.length :=
    ⟨⟨List.nodup_nil, by simp, by simp⟩, Reading.room_le_depth (Table.ofGrammar grammar) tokens⟩
  have named : Reading.NamedReads grammar tokens 0 tokens.length :=
    Reading.namedReads closed bounded headed (Nat.le_refl _)
  have reads := named grammar.start (start_known closed) _ [] 0 tokens.length (Nat.le_refl _)
    (Nat.zero_le _) (Nat.le_refl _) opens (by simp [Reading.Fresh])
  have awaited : ∀ index, Symbol.nonterminal (grammar.number grammar.start) = .nonterminal index →
      (Rules.ofGrammar grammar).Awaited tokens index 0 := by
    rintro _ ⟨⟩
    exact .start
  exact reads.follows 0 tokens.length (Nat.le_refl _) (Nat.le_refl _) awaited spans

/-- A parse by a headed grammar is what is picked. -/
theorem picks_of_parseTokens (closed : grammar.isClosed = true) (bounded : grammar.isBounded = true)
    (headed : grammar.isHeaded = true) {input : String} {parse : Parse}
    (parsed : (Table.ofGrammar grammar).parseTokens input tokens = .ok parse) :
    grammar.Picks tokens (.rule grammar.start) 0 tokens.length [parse.root] := by
  obtain ⟨trees, found, picks⟩ :=
    whole_picks closed bounded headed (accepts_of_parseTokens closed bounded parsed)
  rw [(whole_of_parseTokens parsed).2] at found
  cases found
  exact picks

/-- What is picked by a headed grammar is the parse. -/
theorem parseTokens_of_picks (closed : grammar.isClosed = true) (bounded : grammar.isBounded = true)
    (headed : grammar.isHeaded = true) {parse : Parse}
    (picks : grammar.Picks tokens (.rule grammar.start) 0 tokens.length [parse.root]) :
    (Table.ofGrammar grammar).parseTokens parse.input tokens = .ok parse := by
  have accepts : grammar.Accepts tokens := by
    have derived := (picks.spans (Nat.zero_le _)).2.2
    rw [List.extract_eq_take_drop, Nat.sub_zero, List.drop_zero, List.take_length] at derived
    exact derived
  obtain ⟨children, parsed, _⟩ := parseTokens_of_accepts closed bounded parse.input accepts
  have same := (picks_of_parseTokens closed bounded headed parsed).unique (Nat.zero_le _) picks
  cases parse
  cases same
  exact parsed

end Grammar

end CommandGrammar
