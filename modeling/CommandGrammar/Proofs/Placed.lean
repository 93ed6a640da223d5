import Mathlib

/-!
# Elements with numbers

Flattening numbers new nonterminals one after the other from a given number on, and so
does a model its nodes. What is true of each element of a list together with its number
is stated for the list and the number of its first element, so that the parts of a longer
list can be looked at one by one.
-/

namespace CommandGrammar

variable {α : Type}

/-- Every element of a list, numbered from a number on, has a property. -/
def Placed (property : Nat → α → Prop) (next : Nat) (made : List α) : Prop :=
  ∀ place element, made[place]? = some element → property (next + place) element

variable {property : Nat → α → Prop} {next : Nat} {made : List α}

/-- No elements have every property. -/
theorem placed_nil : Placed property next [] := by
  intro place element found
  simp at found

/-- The first element has the first number, and the others those after it. -/
theorem placed_cons_iff {element : α} :
    Placed property next (element :: made) ↔
      property next element ∧ Placed property (next + 1) made := by
  constructor
  · intro placed
    refine ⟨placed 0 element rfl, fun place other found => ?_⟩
    have later := placed (place + 1) other (by simpa using found)
    rwa [show next + 1 + place = next + (place + 1) by omega]
  · rintro ⟨head, tail⟩ place other found
    cases place with
    | zero =>
      obtain rfl : element = other := by simpa using found
      exact head
    | succ place =>
      have later := tail place other (by simpa using found)
      rwa [show next + (place + 1) = next + 1 + place by omega]

/-- The numbers of further elements follow those of the ones before them. -/
theorem placed_append_iff {more : List α} :
    Placed property next (made ++ more) ↔
      Placed property next made ∧ Placed property (next + made.length) more := by
  induction made generalizing next with
  | nil => simp [placed_nil]
  | cons element rest ih =>
    rw [List.cons_append, placed_cons_iff, placed_cons_iff, ih, List.length_cons, and_assoc,
      show next + 1 + rest.length = next + (rest.length + 1) by omega]

/-- Where items are related to others one by one, the item at a place is to the one at that place. -/
theorem exists_related_at {β : Type} {related : α → β → Prop} {items : List α} {others : List β}
    (each : List.Forall₂ related items others) {place : Nat} {item : α}
    (found : items[place]? = some item) : ∃ other, others[place]? = some other ∧ related item other := by
  induction each generalizing place with
  | nil => cases found
  | cons head _ ih =>
    cases place with
    | zero =>
      cases found
      exact ⟨_, rfl, head⟩
    | succ place => exact ih found

/-- Where items are related to others one by one, each of them is to one of those. -/
theorem exists_related_of_mem {β : Type} {related : α → β → Prop} {items : List α} {others : List β}
    (each : List.Forall₂ related items others) {item : α} (member : item ∈ items) :
    ∃ other ∈ others, related item other := by
  obtain ⟨place, found⟩ := List.mem_iff_getElem?.1 member
  obtain ⟨other, there, holds⟩ := exists_related_at each found
  exact ⟨other, List.mem_of_getElem? there, holds⟩

end CommandGrammar
