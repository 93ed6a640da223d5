import Mathlib
import CommandGrammar.Proofs.Flatten.Language

/-!
# Where stars stand

The nonterminals that flattening makes of an expression have consecutive numbers, and what their
alternatives use is in turn made for the expression or is the nonterminal of a node. The only
alternatives that use a star are its own and that of the repetition that it was made for, which ends
in it. Parts of an expression are made one after the other, so that this holds of the numbers of
parts that follow each other if it holds of those of each part.
-/

namespace CommandGrammar

namespace Rules

/-- An alternative of a nonterminal has another one among its symbols. -/
def Uses (rules : Rules) (index other : Nat) : Prop :=
  ∃ alternative ∈ rules.alternatives index, Symbol.nonterminal other ∈ alternative

/-- The nonterminal of a repetition: items as often as is asked for, and then a star of them. -/
def EndsIn (rules : Rules) (index star : Nat) : Prop :=
  ∃ min item, rules.label star = .star item ∧ rules.label index = .auxiliary ∧
    rules.alternatives index = [List.replicate min item ++ [.nonterminal star]]

/-- A symbol that stands for a nonterminal only if there is one of its number. -/
def IsKnown (rules : Rules) (symbol : Symbol) : Prop :=
  ∀ index, symbol = .nonterminal index → index < rules.size

/-- Lists of such symbols. -/
def AreKnown (rules : Rules) (alternatives : List (List Symbol)) : Prop :=
  ∀ alternative ∈ alternatives, ∀ symbol ∈ alternative, rules.IsKnown symbol

/-- A number is one of so many from a number on. -/
def Among (next count index : Nat) : Prop := next ≤ index ∧ index < next + count

/-- The nonterminals of so many numbers from one on use only known ones, and stars only where these
belong. -/
structure Segment (rules : Rules) (next count : Nat) : Prop where
  /-- What they use is known. -/
  known : ∀ index, Among next count index → ∀ other, rules.Uses index other → other < rules.size
  /-- A star is used by itself and where a repetition ends in it. -/
  used : ∀ index, Among next count index → ∀ star item, rules.label star = .star item →
    rules.Uses index star → index = star ∨ rules.EndsIn index star
  /-- A repetition ends in a star of them. -/
  inside : ∀ index, Among next count index → ∀ star, rules.EndsIn index star →
    Among next count star
  /-- No two repetitions end in the same star. -/
  once : ∀ index, Among next count index → ∀ other, Among next count other → ∀ star,
    rules.EndsIn index star → rules.EndsIn other star → index = other
  /-- Some repetition ends in each star. -/
  ended : ∀ star, Among next count star → ∀ item, rules.label star = .star item →
    ∃ index, Among next count index ∧ rules.EndsIn index star

variable {rules : Rules} {rule : NodeId → Nat} {ids : List NodeId} {next count more index : Nat}

/-! ## Parts that follow each other -/

/-- The numbers of two parts are those of the first one and those of the second one. -/
theorem among_add_iff : Among next (count + more) index ↔
    Among next count index ∨ Among (next + count) more index := by
  unfold Among
  omega

/-- No number is among none. -/
theorem Segment.empty (next : Nat) : rules.Segment next 0 := by
  have none_among : ∀ index, ¬ Among next 0 index := fun index among => by
    unfold Among at among
    omega
  exact ⟨fun _ among => absurd among (none_among _), fun _ among => absurd among (none_among _),
    fun _ among => absurd among (none_among _), fun _ among => absurd among (none_among _),
    fun _ among => absurd among (none_among _)⟩

/-- The numbers of a part and those of the next one. -/
theorem Segment.append (first : rules.Segment next count)
    (second : rules.Segment (next + count) more) : rules.Segment next (count + more) := by
  have apart : ∀ star, Among next count star → ¬ Among (next + count) more star := fun star => by
    unfold Among
    omega
  refine ⟨fun index among => ?_, fun index among => ?_, fun index among star ends => ?_,
    fun index among other otherAmong star ends otherEnds => ?_, fun star among item label => ?_⟩
  · exact (among_add_iff.1 among).elim (first.known index) (second.known index)
  · exact (among_add_iff.1 among).elim (first.used index) (second.used index)
  · refine among_add_iff.2 ((among_add_iff.1 among).imp (fun own => ?_) fun own => ?_)
    · exact first.inside index own star ends
    · exact second.inside index own star ends
  · rcases among_add_iff.1 among with own | own <;>
      rcases among_add_iff.1 otherAmong with others | others
    · exact first.once index own other others star ends otherEnds
    · exact absurd (second.inside other others star otherEnds)
        (apart star (first.inside index own star ends))
    · exact absurd (second.inside index own star ends)
        (apart star (first.inside other others star otherEnds))
    · exact second.once index own other others star ends otherEnds
  · rcases among_add_iff.1 among with own | own
    · obtain ⟨index, inside, ends⟩ := first.ended star own item label
      exact ⟨index, among_add_iff.2 (.inl inside), ends⟩
    · obtain ⟨index, inside, ends⟩ := second.ended star own item label
      exact ⟨index, among_add_iff.2 (.inr inside), ends⟩

/-! ## Nonterminals without stars -/

/-- The number of a nonterminal of the rules is in range. -/
theorem Has.lt_size {nonterminal : Nonterminal} (has : rules.Has index nonterminal) :
    index < rules.size :=
  (Array.getElem?_eq_some_iff.1 has).1

/-- A symbol for a nonterminal of the rules is known. -/
theorem Has.isKnown {nonterminal : Nonterminal} (has : rules.Has index nonterminal) :
    rules.IsKnown (.nonterminal index) := by
  rintro _ ⟨⟩
  exact has.lt_size

/-- Terminals are known. -/
theorem isKnown_of_terminal {symbol : Symbol} (terminal : ∀ index, symbol ≠ .nonterminal index) :
    rules.IsKnown symbol :=
  fun index same => absurd same (terminal index)

/-- The nonterminal of a node is known. -/
theorem isKnown_of_mem (resolves : rules.Resolves rule ids) {id : NodeId} (member : id ∈ ids) :
    rules.IsKnown (.nonterminal (rule id)) := by
  obtain ⟨_, has⟩ := has_of_label (resolves id member) (by simp)
  exact has.isKnown

/-- A repetition uses the star that it ends in. -/
theorem EndsIn.uses {star : Nat} (ends : rules.EndsIn index star) : rules.Uses index star := by
  obtain ⟨min, item, _, _, alternatives⟩ := ends
  exact ⟨_, by rw [alternatives]; exact List.mem_singleton_self _, by simp⟩

/-- A nonterminal with plain alternatives uses no star. -/
theorem not_uses_star {nonterminal : Nonterminal} (has : rules.Has index nonterminal)
    (plain : rules.ArePlain rule ids nonterminal.alternatives) {star : Nat} {item : Symbol}
    (label : rules.label star = .star item) : ¬ rules.Uses index star := by
  rintro ⟨alternative, member, inside⟩
  rw [has.alternatives] at member
  exact (plain alternative member _ inside).2 star item rfl label

/-- A nonterminal with plain and known alternatives, if it is no star itself. -/
theorem Segment.single {nonterminal : Nonterminal} (has : rules.Has next nonterminal)
    (plain : rules.ArePlain rule ids nonterminal.alternatives)
    (known : rules.AreKnown nonterminal.alternatives)
    (label : ∀ item, nonterminal.label ≠ .star item) : rules.Segment next 1 := by
  have only : ∀ index, Among next 1 index → index = next := fun index among => by
    unfold Among at among
    omega
  have no_end : ∀ star, ¬ rules.EndsIn next star := fun star ends => by
    have uses := ends.uses
    obtain ⟨_, _, label, _⟩ := ends
    exact not_uses_star has plain label uses
  refine ⟨fun index among other => ?_, fun index among star item label => ?_,
    fun index among star => ?_, fun index among other otherAmong _ _ _ => ?_,
    fun star among item => ?_⟩
  · rw [only index among]
    rintro ⟨alternative, member, inside⟩
    rw [has.alternatives] at member
    exact known alternative member _ inside other rfl
  · rw [only index among]
    exact fun uses => absurd uses (not_uses_star has plain label)
  · rw [only index among]
    exact fun ends => absurd ends (no_end star)
  · rw [only index among, only other otherAmong]
  · rw [only star among, has.label]
    exact fun same => absurd same (label item)

/-- The nonterminal of a nested expression and those of its parts. -/
theorem auxiliary_segment {made : Flatten.Made (List (List Symbol))}
    (placed : Placed rules.Has next (Flatten.auxiliary next made).2)
    (plain : rules.ArePlain rule ids made.1) (known : rules.AreKnown made.1)
    (inner : rules.Segment (next + 1) made.2.length) :
    rules.IsKnown (Flatten.auxiliary next made).1 ∧
      rules.Segment next (Flatten.auxiliary next made).2.length := by
  have has := (placed_cons_iff.1 placed).1
  refine ⟨has.isKnown, ?_⟩
  rw [Flatten.auxiliary, List.length_cons, Nat.add_comm]
  exact (Segment.single has plain known (by simp)).append inner

/-! ## Repetitions -/

/-- The links of a chain use the item and the links before them. -/
theorem chainTail_segment {number links : Nat} {item : Symbol}
    (placed : Placed rules.Has number (Flatten.chainTail number item links).2)
    (plain : rules.IsPlain rule ids item) (known : rules.IsKnown item) (link : Nat)
    (inside : link ≤ links) :
    rules.IsKnown (.nonterminal (number + link)) ∧ rules.Segment number (link + 1) := by
  induction link with
  | zero =>
    have empty := (placed_cons_iff.1 placed).1
    have nothing : rules.ArePlain rule ids [[]] := by simp [ArePlain]
    exact ⟨empty.isKnown, .single empty nothing (by simp [AreKnown]) (by simp)⟩
  | succ link ih =>
    obtain ⟨knownLink, before⟩ := ih (Nat.le_of_succ_le inside)
    have has := has_link placed inside
    have plainLink := label_link placed (Nat.le_of_succ_le inside)
    have all : rules.ArePlain rule ids [[item, .nonterminal (number + link)], []] := by
      simpa [ArePlain] using ⟨plain, isPlain_of_auxiliary plainLink⟩
    refine ⟨has.isKnown, before.append (.single has all ?_ (by simp))⟩
    simpa [AreKnown] using ⟨known, knownLink⟩

section

variable {min star other : Nat} {item : Symbol}

/-- A repetition uses its item and the star of that. -/
theorem uses_repeated (has : rules.Has index
      ⟨.auxiliary, [List.replicate min item ++ [.nonterminal star]]⟩)
    (uses : rules.Uses index other) : .nonterminal other = item ∨ other = star := by
  obtain ⟨alternative, member, inside⟩ := uses
  rw [has.alternatives] at member
  obtain rfl := List.mem_singleton.1 member
  rcases List.mem_append.1 inside with repeats | last
  · exact .inl (List.mem_replicate.1 repeats).2
  · exact .inr (by simpa using last)

/-- A star uses its item and itself. -/
theorem uses_star (has : rules.Has star ⟨.star item, [[.nonterminal star, item], []]⟩)
    (uses : rules.Uses star other) : .nonterminal other = item ∨ other = star := by
  obtain ⟨alternative, member, inside⟩ := uses
  rw [has.alternatives] at member
  rcases List.mem_cons.1 member with rfl | empty
  · simpa [or_comm] using inside
  · obtain rfl := List.mem_singleton.1 empty
    cases inside

/-- Of an item that is no star and a star the latter is the only star. -/
theorem eq_star_of_label (plain : rules.IsPlain rule ids item) {inner : Symbol}
    (label : rules.label other = .star inner) (uses : .nonterminal other = item ∨ other = star) :
    other = star :=
  uses.resolve_left fun same => plain.2 other inner same.symm label

/-- A repetition of an item that is no star ends in one star only. -/
theorem eq_of_endsIn (has : rules.Has index
      ⟨.auxiliary, [List.replicate min item ++ [.nonterminal star]]⟩)
    (plain : rules.IsPlain rule ids item) (ends : rules.EndsIn index other) : other = star := by
  have uses := uses_repeated has ends.uses
  obtain ⟨_, _, label, _⟩ := ends
  exact eq_star_of_label plain label uses

/-- A star is no repetition. -/
theorem not_endsIn_star {alternatives : List (List Symbol)}
    (has : rules.Has star ⟨.star item, alternatives⟩) : ¬ rules.EndsIn star other := by
  rintro ⟨_, _, _, label, _⟩
  rw [has.label] at label
  cases label

/-- A repetition that ends in a star: its own nonterminal, those of its item, and the star. -/
theorem starred_segment (last : star = next + 1 + count)
    (outer : rules.Has next ⟨.auxiliary, [List.replicate min item ++ [.nonterminal star]]⟩)
    (starred : rules.Has star ⟨.star item, [[.nonterminal star, item], []]⟩)
    (plain : rules.IsPlain rule ids item) (known : rules.IsKnown item)
    (inner : rules.Segment (next + 1) count) : rules.Segment next (1 + count + 1) := by
  have cases_among {index : Nat} (among : Among next (1 + count + 1) index) :
      index = next ∨ Among (next + 1) count index ∨ index = star := by
    unfold Among at among ⊢
    omega
  have part_among {index : Nat} (among : Among (next + 1) count index) :
      Among next (1 + count + 1) index ∧ index ≠ star := by
    unfold Among at among ⊢
    omega
  have own_among : Among next (1 + count + 1) next ∧ Among next (1 + count + 1) star := by
    unfold Among
    omega
  have ends : rules.EndsIn next star :=
    ⟨min, item, starred.label, outer.label, outer.alternatives⟩
  have inner_end {index used : Nat} (among : Among (next + 1) count index)
      (ends : rules.EndsIn index used) : used ≠ star :=
    (part_among (inner.inside index among used ends)).2
  refine ⟨fun index among other uses => ?_, fun index among used item label uses => ?_,
    fun index among used uses => ?_, fun index among other otherAmong used uses otherUses => ?_,
    fun used among item label => ?_⟩
  · have of_use (uses : .nonterminal other = item ∨ other = star) : other < rules.size :=
      uses.elim (fun same => known other same.symm) fun same => same ▸ starred.lt_size
    rcases cases_among among with rfl | part | rfl
    · exact of_use (uses_repeated outer uses)
    · exact inner.known index part other uses
    · exact of_use (uses_star starred uses)
  · rcases cases_among among with rfl | part | rfl
    · exact .inr (eq_star_of_label plain label (uses_repeated outer uses) ▸ ends)
    · exact inner.used index part used item label uses
    · exact .inl (eq_star_of_label plain label (uses_star starred uses)).symm
  · rcases cases_among among with rfl | part | rfl
    · exact eq_of_endsIn outer plain uses ▸ own_among.2
    · exact (part_among (inner.inside index part used uses)).1
    · exact absurd uses (not_endsIn_star starred)
  · rcases cases_among among with rfl | part | rfl
    · rcases cases_among otherAmong with rfl | others | rfl
      · rfl
      · exact absurd (eq_of_endsIn outer plain uses) (inner_end others otherUses)
      · exact absurd otherUses (not_endsIn_star starred)
    · rcases cases_among otherAmong with rfl | others | rfl
      · exact absurd (eq_of_endsIn outer plain otherUses) (inner_end part uses)
      · exact inner.once index part other others used uses otherUses
      · exact absurd otherUses (not_endsIn_star starred)
    · exact absurd uses (not_endsIn_star starred)
  · rcases cases_among among with rfl | part | rfl
    · rw [outer.label] at label
      cases label
    · obtain ⟨index, within, own⟩ := inner.ended used part item label
      exact ⟨index, (part_among within).1, own⟩
    · exact ⟨next, own_among.1, ends⟩

end

/-- The nonterminals of a repetition. -/
theorem repeated_segment {min : Nat} {max : Option Nat} {item : Flatten.Made Symbol}
    (placed : Placed rules.Has next (Flatten.repeated next min max item).2)
    (made : Placed rules.Has (next + 1) item.2 → rules.IsPlain rule ids item.1 ∧
      rules.IsKnown item.1 ∧ rules.Segment (next + 1) item.2.length) :
    rules.IsKnown (Flatten.repeated next min max item).1 ∧
      rules.Segment next (Flatten.repeated next min max item).2.length := by
  obtain ⟨has, others⟩ := placed_cons_iff.1 placed
  obtain ⟨inner, ends⟩ := placed_append_iff.1 others
  obtain ⟨plain, known, segment⟩ := made inner
  refine ⟨has.isKnown, ?_⟩
  cases max with
  | none =>
    have star := (placed_cons_iff.1 ends).1
    have all := starred_segment rfl has star plain known segment
    simpa [Flatten.repeated, Flatten.starTail, Nat.add_comm, Nat.add_left_comm] using all
  | some max =>
    obtain ⟨tail, links⟩ := chainTail_segment ends plain known _ (Nat.le_refl _)
    have plainTail : rules.IsPlain rule ids _ :=
      isPlain_of_auxiliary (label_link ends (Nat.le_refl _))
    have own : rules.Segment next 1 := by
      refine .single has (forall_only fun symbol inside => ?_ : rules.ArePlain rule ids _)
        (forall_only fun symbol inside => ?_) (by simp)
      · rcases List.mem_append.1 inside with repeats | last
        · exact (List.mem_replicate.1 repeats).2 ▸ plain
        · exact List.mem_singleton.1 last ▸ plainTail
      · rcases List.mem_append.1 inside with repeats | last
        · exact (List.mem_replicate.1 repeats).2 ▸ known
        · exact List.mem_singleton.1 last ▸ tail
    have all := own.append (segment.append links)
    simpa [Flatten.repeated, Flatten.chainTail, Nat.add_comm, Nat.add_left_comm] using all

/-! ## Expressions -/

section

variable (resolves : rules.Resolves rule ids)
include resolves

/-- A nested choice uses what is known if its items do. -/
theorem choice_segment (items : List Expr) (within : referencesOf items ⊆ ids)
    (placed : Placed rules.Has next (Flatten.symbol rule next (.alt items)).2)
    (made : Placed rules.Has (next + 1) (Flatten.sequences rule (next + 1) items).2 →
      rules.AreKnown (Flatten.sequences rule (next + 1) items).1 ∧
        rules.Segment (next + 1) (Flatten.sequences rule (next + 1) items).2.length) :
    rules.IsKnown (Flatten.symbol rule next (.alt items)).1 ∧
      rules.Segment next (Flatten.symbol rule next (.alt items)).2.length := by
  have parts := (placed_cons_iff.1 placed).2
  obtain ⟨known, inner⟩ := made parts
  exact auxiliary_segment placed (sequences_shaped resolves items _ within parts).1 known inner

/-- A nested option uses what is known if its expression does. -/
theorem optional_segment (inner : Expr) (within : inner.references ⊆ ids)
    (placed : Placed rules.Has next (Flatten.symbol rule next (.optional inner)).2)
    (made : Placed rules.Has (next + 1) (Flatten.alternatives rule (next + 1) inner).2 →
      rules.AreKnown (Flatten.alternatives rule (next + 1) inner).1 ∧
        rules.Segment (next + 1) (Flatten.alternatives rule (next + 1) inner).2.length) :
    rules.IsKnown (Flatten.symbol rule next (.optional inner)).1 ∧
      rules.Segment next (Flatten.symbol rule next (.optional inner)).2.length := by
  have parts := (placed_cons_iff.1 placed).2
  obtain ⟨known, segment⟩ := made parts
  have plain := (alternatives_shaped resolves inner _ within parts).1
  exact auxiliary_segment placed (forall_orEmpty plain) (forall_orEmpty known) segment

/-- A repetition uses what is known if its expression does. -/
theorem repetition_segment (inner : Expr) {min : Nat} {max : Option Nat}
    (within : inner.references ⊆ ids)
    (placed : Placed rules.Has next (Flatten.symbol rule next (.repetition inner min max)).2)
    (made : Placed rules.Has (next + 1) (Flatten.symbol rule (next + 1) inner).2 →
      rules.IsKnown (Flatten.symbol rule (next + 1) inner).1 ∧
        rules.Segment (next + 1) (Flatten.symbol rule (next + 1) inner).2.length) :
    rules.IsKnown (Flatten.symbol rule next (.repetition inner min max)).1 ∧
      rules.Segment next (Flatten.symbol rule next (.repetition inner min max)).2.length :=
  repeated_segment placed fun parts =>
    ⟨(symbol_shaped resolves inner _ within parts).1, made parts⟩

end

mutual

/-- The symbol of an expression is known, and so is what its nonterminals use. -/
theorem symbol_segment (resolves : rules.Resolves rule ids) (expr : Expr) (next : Nat)
    (within : expr.references ⊆ ids)
    (placed : Placed rules.Has next (Flatten.symbol rule next expr).2) :
    rules.IsKnown (Flatten.symbol rule next expr).1 ∧
      rules.Segment next (Flatten.symbol rule next expr).2.length := by
  cases expr with
  | literal text => exact ⟨isKnown_of_terminal (by simp [Flatten.symbol]), .empty next⟩
  | value => exact ⟨isKnown_of_terminal (by simp [Flatten.symbol]), .empty next⟩
  | rule id => exact ⟨isKnown_of_mem resolves (within (List.mem_singleton_self _)), .empty next⟩
  | seq items =>
    have parts := (placed_cons_iff.1 placed).2
    have plain := (sequences_shaped resolves items (next + 1) within parts).1
    have inner := sequences_segment resolves items (next + 1) within parts
    exact auxiliary_segment placed (forall_only (forall_flatten plain))
      (forall_only (forall_flatten inner.1)) inner.2
  | alt items =>
    exact choice_segment resolves items within placed
      (sequences_segment resolves items _ within)
  | optional inner =>
    exact optional_segment resolves inner within placed
      (alternatives_segment resolves inner _ within)
  | repetition inner min max =>
    exact repetition_segment resolves inner within placed (symbol_segment resolves inner _ within)

/-- The symbols of an expression are known, and so is what its nonterminals use. -/
theorem sequence_segment (resolves : rules.Resolves rule ids) (expr : Expr) (next : Nat)
    (within : expr.references ⊆ ids)
    (placed : Placed rules.Has next (Flatten.sequence rule next expr).2) :
    (∀ symbol ∈ (Flatten.sequence rule next expr).1, rules.IsKnown symbol) ∧
      rules.Segment next (Flatten.sequence rule next expr).2.length := by
  cases expr with
  | literal text => exact ⟨forall_single (isKnown_of_terminal (by simp)), .empty next⟩
  | value => exact ⟨forall_single (isKnown_of_terminal (by simp)), .empty next⟩
  | rule id =>
    exact ⟨forall_single (isKnown_of_mem resolves (within (List.mem_singleton_self _))),
      .empty next⟩
  | seq items => exact (sequences_segment resolves items next within placed).imp_left forall_flatten
  | alt items =>
    exact (choice_segment resolves items within placed
      (sequences_segment resolves items _ within)).imp_left forall_single
  | optional inner =>
    exact (optional_segment resolves inner within placed
      (alternatives_segment resolves inner _ within)).imp_left forall_single
  | repetition inner min max =>
    exact (repetition_segment resolves inner within placed
      (symbol_segment resolves inner _ within)).imp_left forall_single

/-- The alternatives of an expression are known, and so is what its nonterminals use. -/
theorem alternatives_segment (resolves : rules.Resolves rule ids) (expr : Expr) (next : Nat)
    (within : expr.references ⊆ ids)
    (placed : Placed rules.Has next (Flatten.alternatives rule next expr).2) :
    rules.AreKnown (Flatten.alternatives rule next expr).1 ∧
      rules.Segment next (Flatten.alternatives rule next expr).2.length := by
  cases expr with
  | literal text =>
    exact ⟨forall_only (forall_single (isKnown_of_terminal (by simp))), .empty next⟩
  | value => exact ⟨forall_only (forall_single (isKnown_of_terminal (by simp))), .empty next⟩
  | rule id =>
    exact ⟨forall_only (forall_single
      (isKnown_of_mem resolves (within (List.mem_singleton_self _)))), .empty next⟩
  | seq items =>
    exact (sequences_segment resolves items next within placed).imp_left
      fun known => forall_only (forall_flatten known)
  | alt items => exact sequences_segment resolves items next within placed
  | optional inner =>
    exact (alternatives_segment resolves inner next within placed).imp_left forall_orEmpty
  | repetition inner min max =>
    exact (repetition_segment resolves inner within placed
      (symbol_segment resolves inner _ within)).imp_left fun known =>
        forall_only (forall_single known)

/-- The symbols of several expressions are known, and so is what their nonterminals use. -/
theorem sequences_segment (resolves : rules.Resolves rule ids) (items : List Expr) (next : Nat)
    (within : referencesOf items ⊆ ids)
    (placed : Placed rules.Has next (Flatten.sequences rule next items).2) :
    rules.AreKnown (Flatten.sequences rule next items).1 ∧
      rules.Segment next (Flatten.sequences rule next items).2.length := by
  cases items with
  | nil => exact ⟨by simp [AreKnown, Flatten.sequences], .empty next⟩
  | cons item rest =>
    rw [referencesOf, List.append_subset] at within
    rw [Flatten.sequences] at placed ⊢
    obtain ⟨first, others⟩ := placed_append_iff.1 placed
    obtain ⟨known, segment⟩ := sequence_segment resolves item next within.1 first
    obtain ⟨moreKnown, moreSegment⟩ := sequences_segment resolves rest _ within.2 others
    rw [List.length_append]
    exact ⟨List.forall_mem_cons.2 ⟨known, moreKnown⟩, segment.append moreSegment⟩

end

/-- What the nonterminals of the parts of productions use is known. -/
theorem productions_segment (resolves : rules.Resolves rule ids) {productions : List Production}
    (within : ∀ production ∈ productions, production.expr.references ⊆ ids)
    (placed : Placed rules.Has next (Flatten.productions rule next productions).2) :
    rules.Segment next (Flatten.productions rule next productions).2.length := by
  induction productions generalizing next with
  | nil => exact .empty next
  | cons production rest ih =>
    rw [Flatten.productions] at placed ⊢
    obtain ⟨first, others⟩ := placed_append_iff.1 placed
    have own := (alternatives_segment resolves production.expr next
      (within production List.mem_cons_self) first).2
    have later := ih (fun other member => within other (List.mem_cons_of_mem _ member)) others
    rw [List.length_append]
    exact own.append later

end Rules

namespace Grammar

variable {grammar : Grammar}

/-- The nonterminals of the productions of a closed grammar use what is known, and no stars. -/
theorem named_segment (closed : grammar.isClosed = true) {count : Nat}
    (few : count ≤ grammar.size) : (Rules.ofGrammar grammar).Segment 0 count := by
  induction count with
  | zero => exact .empty 0
  | succ count ih =>
    obtain ⟨named, others⟩ := grammar.placed_has
    have found : grammar.productions[count]? = some _ := List.getElem?_eq_getElem few
    obtain ⟨next, same, inside⟩ := Flatten.getElem?_productions grammar.number grammar.size found
    have within := references_known closed (List.mem_of_getElem? found)
    have placed := inside _ others
    have has := named _ _ same
    have plain := (Rules.alternatives_shaped grammar.resolves _ next within placed).1
    have known := (Rules.alternatives_segment grammar.resolves _ next within placed).1
    exact (ih (Nat.le_of_succ_le few)).append (.single has plain known (by simp))

/-- All nonterminals of a closed grammar use only what is known, and stars only where these
belong. -/
theorem segment (closed : grammar.isClosed = true) :
    (Rules.ofGrammar grammar).Segment 0 (Rules.ofGrammar grammar).size := by
  have named := named_segment closed (Nat.le_refl grammar.size)
  have parts := Rules.productions_segment grammar.resolves
    (fun _ member => references_known closed member) grammar.placed_has.2
  rw [← Nat.zero_add grammar.size] at parts
  have size : (Rules.ofGrammar grammar).size = grammar.size +
      (Flatten.productions grammar.number grammar.size grammar.productions).2.length := by
    rw [Rules.size, Rules.ofGrammar]
    simp only [List.size_toArray, List.length_append]
    rw [Flatten.length_productions]
    rfl
  rw [size]
  simpa using named.append parts

end Grammar

end CommandGrammar
