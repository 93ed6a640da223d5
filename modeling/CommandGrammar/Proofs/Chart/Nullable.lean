import Mathlib
import CommandGrammar.Chart.Nullable
import CommandGrammar.Chart.Language

/-!
# The marks of nullable nonterminals

Rounds of marking only add marks, and a round that adds none is the last one that can;
as many rounds as there are nonterminals therefore reach marks that no round changes.
Those are the nonterminals that derive the empty sequence: every mark has a derivation,
and no derivation leaves marks that are stable.
-/

namespace CommandGrammar

/-- A step is repeated until it changes nothing. -/
inductive Settles {α : Type} (step : α → α) : α → α → Prop where
  /-- Nothing is changed. -/
  | still {x : α} (same : step x = x) : Settles step x x
  /-- After a change the step is repeated. -/
  | again {x y : α} (changed : step x ≠ x) (rest : Settles step (step x) y) : Settles step x y

/-- The rounds are enough, if the step changes nothing after them. -/
theorem settles_settle {α : Type} [DecidableEq α] {step : α → α} {rounds : Nat} {x : α}
    (stable : step (settle step rounds x) = settle step rounds x) :
    Settles step x (settle step rounds x) := by
  induction rounds generalizing x with
  | zero => exact .still stable
  | succ rounds ih =>
    rw [settle] at stable ⊢
    by_cases same : step x = x
    · rw [if_pos same]
      exact .still same
    · rw [if_neg same] at stable ⊢
      exact .again same (ih stable)

namespace Rules

variable {rules : Rules} {marks others : Array Bool}

/-- Every mark of one array is a mark of another. -/
def MarksWithin (marks others : Array Bool) : Prop :=
  ∀ index, marks.getD index false = true → others.getD index false = true

/-- The number of marks. -/
def markCount (marks : Array Bool) : Nat := marks.toList.count true

/-- Symbols that are marked stay so under more marks. -/
theorem isMarked_mono (within : MarksWithin marks others) {symbol : Symbol}
    (marked : isMarked marks symbol = true) : isMarked others symbol = true := by
  cases symbol with
  | nonterminal index => exact within index marked
  | literal => contradiction
  | value => contradiction

/-- A round marks exactly the nonterminals with an alternative of marked symbols. -/
theorem markRound_getD {index : Nat} :
    (rules.markRound marks).getD index false = true ↔
      ∃ alternative ∈ rules.alternatives index, ∀ symbol ∈ alternative,
        isMarked marks symbol = true := by
  unfold markRound alternatives
  rw [Array.getD_eq_getD_getElem?, Array.getElem?_map]
  cases rules.nonterminals[index]? with
  | none => simp
  | some nonterminal => simp

/-- A round has one mark or none for each nonterminal. -/
theorem markRound_size : (rules.markRound marks).size = rules.size := by
  simp [markRound, size]

/-- More marks lead to more marks. -/
theorem markRound_mono (within : MarksWithin marks others) :
    MarksWithin (rules.markRound marks) (rules.markRound others) := by
  intro index marked
  obtain ⟨alternative, member, all⟩ := markRound_getD.1 marked
  exact markRound_getD.2 ⟨alternative, member, fun symbol inside =>
    isMarked_mono within (all symbol inside)⟩

/-- Of two lists of marks of one length, the second with every mark of the first, the second has
no fewer marks, and no more only if they are equal. -/
theorem count_marks_le {xs ys : List Bool} (size : xs.length = ys.length)
    (within : ∀ index : Nat, xs[index]? = some true → ys[index]? = some true) :
    xs.count true ≤ ys.count true ∧ (xs.count true = ys.count true → xs = ys) := by
  induction xs generalizing ys with
  | nil =>
    cases ys with
    | nil => simp
    | cons => simp at size
  | cons x xs ih =>
    cases ys with
    | nil => simp at size
    | cons y ys =>
      have rest := ih (by simpa using size) (fun index => by simpa using within (index + 1))
      have first := within 0
      simp only [List.getElem?_cons_zero, Option.some.injEq] at first
      cases x <;> cases y <;> simp_all
      omega

/-- Marks that are no more than others of the same size and equally many are the same. -/
theorem markCount_le (size : marks.size = others.size) (within : MarksWithin marks others) :
    markCount marks ≤ markCount others ∧ (markCount marks = markCount others → marks = others) := by
  have listed : ∀ index : Nat, marks.toList[index]? = some true →
      others.toList[index]? = some true := by
    intro index found
    rw [Array.getElem?_toList] at found ⊢
    have marked := within index (by rw [Array.getD_eq_getD_getElem?, found]; rfl)
    rw [Array.getD_eq_getD_getElem?] at marked
    cases other : others[index]? with
    | none => simp [other] at marked
    | some mark => simpa [other] using marked
  have counted := count_marks_le (by simpa using size) listed
  exact ⟨counted.1, fun same => Array.toList_inj.1 (counted.2 same)⟩

/-- There are no more marks than places for them. -/
theorem markCount_le_size (marks : Array Bool) : markCount marks ≤ marks.size := by
  simpa [markCount] using List.count_le_length (a := true) (l := marks.toList)

/-- Rounds from marks that a round only adds to end with marks that no round changes, if there
are as many rounds as marks could still be added. -/
theorem markRound_settle {rounds : Nat} (size : marks.size = rules.size)
    (grows : MarksWithin marks (rules.markRound marks))
    (enough : rules.size ≤ rounds + markCount marks) :
    rules.markRound (settle rules.markRound rounds marks) =
      settle rules.markRound rounds marks := by
  induction rounds generalizing marks with
  | zero =>
    have counted := markCount_le (size.trans markRound_size.symm) grows
    have bound := markCount_le_size (rules.markRound marks)
    rw [markRound_size] at bound
    simp only [settle]
    exact (counted.2 (by omega)).symm
  | succ rounds ih =>
    simp only [settle]
    split
    · next stable => exact stable
    · next changed =>
      have counted := markCount_le (size.trans markRound_size.symm) grows
      have more : markCount marks ≠ markCount (rules.markRound marks) := fun same =>
        changed (counted.2 same).symm
      exact ih markRound_size (markRound_mono grows) (by omega)

/-- A property of marks that every round keeps holds in the end, if it held before. -/
theorem settle_induction {keeps : Array Bool → Prop}
    (round : ∀ marks, keeps marks → keeps (rules.markRound marks)) {rounds : Nat}
    (start : keeps marks) : keeps (settle rules.markRound rounds marks) := by
  induction rounds generalizing marks with
  | zero => exact start
  | succ rounds ih =>
    simp only [settle]
    split
    · exact start
    · exact ih (round marks start)

/-- Symbols that each derive the empty sequence derive it together. -/
theorem derives_nil_of_forall {symbols : List Symbol}
    (each : ∀ symbol ∈ symbols, rules.Derives [symbol] []) : rules.Derives symbols [] := by
  induction symbols with
  | nil => exact .nil
  | cons symbol rest ih =>
    exact (each symbol List.mem_cons_self).append
      (ih fun other member => each other (List.mem_cons_of_mem _ member))

/-- At first nothing is marked. -/
theorem not_marked_replicate {count index : Nat} :
    ¬ (Array.replicate count false).getD index false = true := by
  rw [Array.getD_eq_getD_getElem?, Array.getElem?_replicate]
  split <;> simp

/-- Every mark has a derivation of the empty sequence. -/
theorem derives_of_nullable {index : Nat} (marked : rules.nullable.getD index false = true) :
    rules.Derives [.nonterminal index] [] := by
  let sound (marks : Array Bool) : Prop :=
    ∀ index, marks.getD index false = true → rules.Derives [.nonterminal index] []
  have start : sound (Array.replicate rules.size false) :=
    fun index marked => absurd marked not_marked_replicate
  have round : ∀ marks, sound marks → sound (rules.markRound marks) := by
    intro marks kept index marked
    obtain ⟨alternative, member, all⟩ := markRound_getD.1 marked
    refine derives_nonterminal_iff.2 ⟨alternative, member, derives_nil_of_forall ?_⟩
    intro symbol inside
    cases symbol with
    | nonterminal other => exact kept other (all _ inside)
    | literal => cases all _ inside
    | value => cases all _ inside
  exact settle_induction round start index marked

/-- The marks are stable. -/
theorem markRound_nullable : rules.markRound rules.nullable = rules.nullable := by
  exact markRound_settle (by simp) (fun index marked => absurd marked not_marked_replicate)
    (by omega)

/-- The rounds come to an end, with the marks. -/
theorem settles_nullable (rules : Rules) :
    Settles rules.markRound (Array.replicate rules.size false) rules.nullable :=
  settles_settle markRound_nullable

/-- Symbols that derive the empty sequence are marked. -/
theorem isMarked_of_derives {symbols : List Symbol} {tokens : List String}
    (derived : rules.Derives symbols tokens) (empty : tokens = []) :
    ∀ symbol ∈ symbols, isMarked rules.nullable symbol = true := by
  induction derived with
  | nil => simp
  | terminal => contradiction
  | @nonterminal index alternative rest first others member body tail bodyIH tailIH =>
    obtain ⟨noFirst, noOthers⟩ := List.append_eq_nil_iff.1 empty
    intro symbol inside
    rcases List.mem_cons.1 inside with rfl | later
    · change rules.nullable.getD index false = true
      rw [← markRound_nullable]
      exact markRound_getD.2 ⟨alternative, member, bodyIH noFirst⟩
    · exact tailIH noOthers symbol later

/-- Exactly the nonterminals that derive the empty sequence are marked. -/
theorem nullable_iff {index : Nat} :
    rules.nullable.getD index false = true ↔ rules.Derives [.nonterminal index] [] :=
  ⟨derives_of_nullable, fun derived => isMarked_of_derives derived rfl _ List.mem_cons_self⟩

end Rules

end CommandGrammar
