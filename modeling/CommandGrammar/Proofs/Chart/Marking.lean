import Mathlib
import CommandGrammar.Proofs.Chart.Nullable

/-!
# Marking rule by rule

The marks of nullable nonterminals do not depend on how the rules are gone through. A scan
looks at one rule after the other, in any order, and a mark counts at once for the rules
after it. Scans only add marks, and never one that is not among the marks of the rounds;
once a scan adds none, no rule is left that could, so these are the same marks.
-/

namespace CommandGrammar

namespace Rules

/-- A rule by itself: a nonterminal and one of its alternatives. -/
abbrev Single := Nat × List Symbol

/-- A list holds the rules, each as often as it likes and in any order. -/
def IsListing (rules : Rules) (listed : List Single) : Prop :=
  ∀ index alternative, (index, alternative) ∈ listed ↔ alternative ∈ rules.alternatives index

/-- Looks at a rule: if all symbols of the alternative are marked, so is its nonterminal. -/
def markSingle (marks : Array Bool) (single : Single) : Array Bool :=
  if single.2.all (isMarked marks) then marks.setIfInBounds single.1 true else marks

/-- Looks at rules one after the other. -/
def markScan (listed : List Single) (marks : Array Bool) : Array Bool :=
  listed.foldl markSingle marks

/-- The flat rules of a list of rules for a number of nonterminals. -/
def ofListed (count start : Nat) (listed : List Single) : Rules where
  nonterminals := (Array.range count).map fun index =>
    ⟨.auxiliary, (listed.filter fun single => single.1 == index).map Prod.snd⟩
  start

variable {rules : Rules} {listed : List Single} {single : Single} {marks : Array Bool}

/-- A list of rules for a number of nonterminals holds the rules that are made of it. -/
theorem isListing_ofListed {count : Nat} (start : Nat)
    (known : ∀ single ∈ listed, single.1 < count) :
    (ofListed count start listed).IsListing listed := by
  intro index alternative
  unfold alternatives ofListed
  rw [Array.getElem?_map]
  by_cases below : index < count
  · have same : (Array.range count)[index]? = some index := by simp [below]
    rw [same]
    simp
  · have beyond : (Array.range count)[index]? = none := by simp; omega
    rw [beyond]
    simp only [Option.map_none, List.not_mem_nil, iff_false]
    intro member
    exact below (known _ member)

/-- Looking at a rule leaves the number of nonterminals. -/
theorem size_markSingle : (markSingle marks single).size = marks.size := by
  unfold markSingle
  split <;> simp

/-- So does a scan. -/
theorem size_markScan : (markScan listed marks).size = marks.size := by
  induction listed generalizing marks with
  | nil => rfl
  | cons single rest ih => exact ih.trans size_markSingle

/-- A nonterminal is marked after looking at a rule if it was before, or if the rule marks it. -/
theorem markSingle_getD {index : Nat} :
    (markSingle marks single).getD index false = true ↔
      marks.getD index false = true ∨
        index = single.1 ∧ index < marks.size ∧ single.2.all (isMarked marks) = true := by
  unfold markSingle
  split
  · next all =>
    rw [Array.getD_eq_getD_getElem?, Array.getElem?_setIfInBounds]
    by_cases same : single.1 = index
    · subst same
      by_cases below : single.1 < marks.size
      · simp [below, all]
      · simp [below]
    · have other : index ≠ single.1 := fun equal => same equal.symm
      simp [same, other, Array.getD_eq_getD_getElem?]
  · next unmarked => simp [unmarked]

/-- Looking at a rule only adds marks. -/
theorem within_markSingle : MarksWithin marks (markSingle marks single) :=
  fun _ marked => markSingle_getD.2 (.inl marked)

/-- So does a scan. -/
theorem within_markScan : MarksWithin marks (markScan listed marks) := by
  induction listed generalizing marks with
  | nil => exact fun _ marked => marked
  | cons single rest ih => exact fun index marked => ih index (within_markSingle index marked)

/-- Marks with each other's marks are the same. -/
theorem eq_of_within {others : Array Bool} (size : marks.size = others.size)
    (within : MarksWithin marks others) (back : MarksWithin others marks) : marks = others := by
  have counted := markCount_le size within
  have countedBack := markCount_le size.symm back
  exact counted.2 (Nat.le_antisymm counted.1 countedBack.1)

/-- After a scan that adds no mark no rule of the list adds one. -/
theorem markSingle_of_markScan (still : markScan listed marks = marks) (member : single ∈ listed) :
    markSingle marks single = marks := by
  induction listed with
  | nil => cases member
  | cons head rest ih =>
    have scanned : markScan rest (markSingle marks head) = marks := still
    have back : MarksWithin (markSingle marks head) marks := fun index marked =>
      scanned ▸ within_markScan index marked
    have first : markSingle marks head = marks :=
      eq_of_within size_markSingle back within_markSingle
    rw [first] at scanned
    rcases List.mem_cons.1 member with rfl | later
    · exact first
    · exact ih scanned later

/-- Rules mark only nonterminals that derive the empty sequence, if only such are marked. -/
theorem markScan_within_nullable (listing : rules.IsListing listed)
    (within : MarksWithin marks rules.nullable) :
    MarksWithin (markScan listed marks) rules.nullable := by
  have each : ∀ single ∈ listed, single.2 ∈ rules.alternatives single.1 :=
    fun single member => (listing single.1 single.2).1 member
  clear listing
  induction listed generalizing marks with
  | nil => exact within
  | cons head rest ih =>
    refine ih (fun index marked => ?_) fun single member =>
      each single (List.mem_cons_of_mem _ member)
    rcases markSingle_getD.1 marked with before | ⟨rfl, _, all⟩
    · exact within index before
    · rw [← markRound_nullable]
      have member := each head List.mem_cons_self
      exact markRound_getD.2 ⟨head.2, member, fun symbol inside =>
        isMarked_mono within (List.all_eq_true.1 all symbol inside)⟩

/-- Marks to which no rule adds one hold every nonterminal that derives the empty sequence. -/
theorem isMarked_of_closed (size : marks.size = rules.size)
    (closed : ∀ index, ∀ alternative ∈ rules.alternatives index,
      markSingle marks (index, alternative) = marks)
    {symbols : List Symbol} {tokens : List String} (derived : rules.Derives symbols tokens)
    (empty : tokens = []) : ∀ symbol ∈ symbols, isMarked marks symbol = true := by
  induction derived with
  | nil => simp
  | terminal => contradiction
  | @nonterminal index alternative rest first others member body tail bodyIH tailIH =>
    obtain ⟨noFirst, noOthers⟩ := List.append_eq_nil_iff.1 empty
    intro symbol inside
    rcases List.mem_cons.1 inside with rfl | later
    · have known : index < marks.size := by
        by_contra beyond
        have missing : rules.nonterminals[index]? = none :=
          Array.getElem?_eq_none (by rw [size] at beyond; exact Nat.le_of_not_lt beyond)
        simp [alternatives, missing] at member
      have all : alternative.all (isMarked marks) = true :=
        List.all_eq_true.2 (bodyIH noFirst)
      have marked : (markSingle marks (index, alternative)).getD index false = true :=
        markSingle_getD.2 (.inr ⟨rfl, known, all⟩)
      rwa [closed index alternative member] at marked
    · exact tailIH noOthers symbol later

/-- Scans that have come to an end have found the marks of the rounds. -/
theorem eq_nullable_of_still (listing : rules.IsListing listed) (size : marks.size = rules.size)
    (within : MarksWithin marks rules.nullable) (still : markScan listed marks = marks) :
    marks = rules.nullable := by
  have closed : ∀ index, ∀ alternative ∈ rules.alternatives index,
      markSingle marks (index, alternative) = marks := fun index alternative member =>
    markSingle_of_markScan still ((listing index alternative).2 member)
  have back : MarksWithin rules.nullable marks := fun index marked =>
    isMarked_of_closed size closed (nullable_iff.1 marked) rfl _ List.mem_cons_self
  have sizes : marks.size = rules.nullable.size := by
    rw [← markRound_nullable, markRound_size, size]
  exact eq_of_within sizes within back

/-- Scans come to an end from any marks of nonterminals that derive the empty sequence. -/
theorem settles_of_within (listing : rules.IsListing listed) (size : marks.size = rules.size)
    (within : MarksWithin marks rules.nullable) :
    Settles (markScan listed) marks rules.nullable := by
  -- A scan that changes the marks adds one, and there is room for as many as there are
  -- nonterminals.
  induction room : rules.size - markCount marks using Nat.strongRecOn generalizing marks with
  | ind room ih =>
    by_cases still : markScan listed marks = marks
    · rw [← eq_nullable_of_still listing size within still]
      exact .still still
    · have grows : MarksWithin marks (markScan listed marks) := within_markScan
      have counted := markCount_le size_markScan.symm grows
      have more : markCount marks ≠ markCount (markScan listed marks) := fun same =>
        still (counted.2 same).symm
      have bound := markCount_le_size (markScan listed marks)
      rw [size_markScan, size] at bound
      exact .again still (ih _ (by omega) (size_markScan.trans size)
        (markScan_within_nullable listing within) rfl)

/-- Scans of a list of the rules come to an end, with the marks of the rounds. -/
theorem settles_markScan (listing : rules.IsListing listed) :
    Settles (markScan listed) (Array.replicate rules.size false) rules.nullable :=
  settles_of_within listing (by simp) fun _ marked => absurd marked not_marked_replicate

/-- Marks that a round adds nothing to hold the marks of the rounds. -/
theorem nullable_within (closed : MarksWithin (rules.markRound marks) marks) :
    MarksWithin rules.nullable marks := by
  have round : ∀ found, MarksWithin found marks → MarksWithin (rules.markRound found) marks :=
    fun found kept index marked => closed index (markRound_mono kept index marked)
  exact settle_induction round fun index marked => absurd marked not_marked_replicate

end Rules

end CommandGrammar
