import Mathlib
import CommandGrammar.Chart.Closure

/-!
# What a closure collects

A closure holds exactly the elements that can be reached from its seeds, provided its
bound is no smaller than some list of elements that holds the seeds and is closed under
expansion. Every element is seen once and expanded once, so the number of expansions
still allowed plus the number of those done never falls below the bound, and the closure
stops because nothing is left to expand.
-/

namespace CommandGrammar

/-- What can be reached from some elements by expansion. -/
inductive Reached {α : Type} (expand : α → List α) (seeds : List α) : α → Prop where
  /-- The seeds are reached. -/
  | seed {x : α} (member : x ∈ seeds) : Reached expand seeds x
  /-- So is whatever an element that is reached expands to. -/
  | step {x y : α} (reached : Reached expand seeds x) (member : y ∈ expand x) :
      Reached expand seeds y

variable {α : Type} [DecidableEq α] {expand : α → List α}

/-- Removing repetitions leaves none. -/
theorem nodup_eraseDups (xs : List α) : xs.eraseDups.Nodup := by
  induction h : xs.length using Nat.strongRecOn generalizing xs with
  | ind size ih =>
    cases xs with
    | nil => simp
    | cons x rest =>
      rw [List.eraseDups_cons, List.nodup_cons]
      refine ⟨by simp [List.mem_eraseDups], ih _ ?_ _ rfl⟩
      have shorter := List.length_filter_le (fun y => !y == x) rest
      simp only [List.length_cons] at h
      omega

/-- The new elements are those found that have not been seen. -/
theorem mem_newIn {seen found : List α} {x : α} :
    x ∈ newIn seen found ↔ x ∈ found ∧ x ∉ seen := by
  simp [newIn, List.mem_eraseDups]

/-- Seen elements with the new ones before them are still without repetitions. -/
theorem nodup_newIn_append {seen : List α} (found : List α) (nodup : seen.Nodup) :
    (newIn seen found ++ seen).Nodup := by
  refine List.nodup_append.2 ⟨nodup_eraseDups _, nodup, fun x fresh y old same => ?_⟩
  exact (mem_newIn.1 fresh).2 (same ▸ old)

/-- Whatever is collected can be reached, if what has been seen can. -/
theorem reached_of_mem_grow {seeds : List α} {fuel : Nat} {pending seen : List α}
    (waiting : ∀ x ∈ pending, Reached expand seeds x) (known : ∀ x ∈ seen, Reached expand seeds x)
    {x : α} (member : x ∈ grow expand fuel pending seen) : Reached expand seeds x := by
  induction fuel generalizing pending seen with
  | zero => exact known x (by simpa [grow] using member)
  | succ fuel ih =>
    cases pending with
    | nil => exact known x (by simpa [grow] using member)
    | cons next pending =>
      have fresh : ∀ y ∈ newIn seen (expand next), Reached expand seeds y := fun y found =>
        .step (waiting next List.mem_cons_self) (mem_newIn.1 found).1
      refine ih (fun y found => ?_) (fun y found => ?_) member
      · rcases List.mem_append.1 found with found | found
        · exact fresh y found
        · exact waiting y (List.mem_cons_of_mem _ found)
      · rcases List.mem_append.1 found with found | found
        · exact fresh y found
        · exact known y found

/-- What has been seen stays collected. -/
theorem mem_grow_of_mem {fuel : Nat} {pending seen : List α} {x : α} (member : x ∈ seen) :
    x ∈ grow expand fuel pending seen := by
  induction fuel generalizing pending seen with
  | zero => simpa [grow] using member
  | succ fuel ih =>
    cases pending with
    | nil => simpa [grow] using member
    | cons next pending => exact ih (List.mem_append_right _ member)

/-- Pending elements are expanded one after the other until none is left. -/
inductive Grows (expand : α → List α) : List α → List α → List α → Prop where
  /-- Nothing is left to expand. -/
  | done (seen : List α) : Grows expand [] seen seen
  /-- The new elements of an expansion are seen, and pending before the others. -/
  | next {x : α} {pending seen result : List α}
      (rest : Grows expand (newIn seen (expand x) ++ pending) (newIn seen (expand x) ++ seen)
        result) : Grows expand (x :: pending) seen result

/-- The fuel covers what is left to expand, if it covers what a closed list of elements leaves. -/
theorem grows_grow {all : List α} (inside : ∀ x ∈ all, ∀ y ∈ expand x, y ∈ all) {fuel : Nat}
    {pending seen : List α} (nodup : seen.Nodup) (subset : ∀ x ∈ seen, x ∈ all)
    (listed : ∀ x ∈ pending, x ∈ seen) (enough : all.length + pending.length ≤ fuel + seen.length) :
    Grows expand pending seen (grow expand fuel pending seen) := by
  induction fuel generalizing pending seen with
  | zero =>
    have bound : seen.length ≤ all.length := (nodup.subperm subset).length_le
    obtain rfl : pending = [] := List.length_eq_zero_iff.1 (by omega)
    exact .done seen
  | succ fuel ih =>
    cases pending with
    | nil => exact .done seen
    | cons next pending =>
      have nextSeen := listed next List.mem_cons_self
      rw [List.length_cons] at enough
      refine .next (ih (nodup_newIn_append _ nodup) (fun z known => ?_) (fun z waiting => ?_) ?_)
      · rcases List.mem_append.1 known with fresh | old
        · exact inside next (subset next nextSeen) z (mem_newIn.1 fresh).1
        · exact subset z old
      · rcases List.mem_append.1 waiting with fresh | old
        · exact List.mem_append_left _ fresh
        · exact List.mem_append_right _ (listed z (List.mem_cons_of_mem _ old))
      · rw [List.length_append, List.length_append]
        omega

/-- What is left when nothing is pending is closed, if every seen element that is not pending has
its expansions among those seen. -/
theorem Grows.closed {pending seen result : List α} (grows : Grows expand pending seen result)
    (expanded : ∀ x ∈ seen, x ∉ pending → ∀ y ∈ expand x, y ∈ seen) {x y : α}
    (member : x ∈ result) (found : y ∈ expand x) : y ∈ result := by
  induction grows with
  | done => exact expanded x member List.not_mem_nil y found
  | @next next pending seen _ _ ih =>
    refine ih (fun z known idle w reached => ?_) member
    -- The popped element is the only one whose expansions were not all seen before.
    rcases List.mem_append.1 known with fresh | old
    · exact absurd (List.mem_append_left _ fresh) idle
    · by_cases same : z = next
      · subst same
        by_cases seenBefore : w ∈ seen
        · exact List.mem_append_right _ seenBefore
        · exact List.mem_append_left _ (mem_newIn.2 ⟨reached, seenBefore⟩)
      · have notPending : z ∉ next :: pending := by
          rintro (_ | ⟨_, waiting⟩)
          · exact same rfl
          · exact idle (List.mem_append_right _ waiting)
        exact List.mem_append_right _ (expanded z old notPending w reached)

section

variable {all seeds : List α} {bound : Nat}

/-- A closure leaves nothing to expand, if some list no longer than its bound holds the seeds and is
closed under expansion. -/
theorem grows_closure (start : ∀ x ∈ seeds, x ∈ all) (inside : ∀ x ∈ all, ∀ y ∈ expand x, y ∈ all)
    (fits : all.length ≤ bound) :
    Grows expand seeds.eraseDups seeds.eraseDups (closure expand bound seeds) :=
  grows_grow inside (nodup_eraseDups seeds)
    (fun x member => start x (List.mem_eraseDups.1 member)) (fun _ member => member) (by omega)

/-- A closure then holds exactly what can be reached from its seeds. -/
theorem mem_closure_iff (start : ∀ x ∈ seeds, x ∈ all) (inside : ∀ x ∈ all, ∀ y ∈ expand x, y ∈ all)
    (fits : all.length ≤ bound) {x : α} :
    x ∈ closure expand bound seeds ↔ Reached expand seeds x := by
  have listed : ∀ y ∈ seeds.eraseDups, y ∈ seeds := fun y member => List.mem_eraseDups.1 member
  constructor
  · intro member
    exact reached_of_mem_grow (fun y found => .seed (listed y found))
      (fun y found => .seed (listed y found)) member
  · intro reached
    induction reached with
    | seed member => exact mem_grow_of_mem (List.mem_eraseDups.2 member)
    | step _ found ih =>
      refine (grows_closure start inside fits).closed (fun y member idle => ?_) ih found
      exact absurd member idle

end

end CommandGrammar
