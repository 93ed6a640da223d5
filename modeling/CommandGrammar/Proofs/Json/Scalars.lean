import Mathlib
import CommandGrammar.Json

/-!
# What documents hold

Of a document three things matter to whoever writes it as text and reads it back: its scalars, how
deep its arrays and objects nest, and what becomes of it when each of its binary64 numbers is
changed to another. It stays as it is exactly if none of its numbers changes.
-/

namespace CommandGrammar.Json

mutual

/-- The scalars of a document, in their order. -/
def scalars : Json → List Json
  | .array items => itemScalars items
  | .object members => memberScalars members
  | scalar => [scalar]

/-- The scalars of items. -/
def itemScalars : List Json → List Json
  | [] => []
  | item :: rest => item.scalars ++ itemScalars rest

/-- The scalars of members. -/
def memberScalars : List (String × Json) → List Json
  | [] => []
  | (_, value) :: rest => value.scalars ++ memberScalars rest

end

mutual

/-- The greatest number of arrays and objects inside each other. -/
def nesting : Json → Nat
  | .array items => itemsNesting items + 1
  | .object members => membersNesting members + 1
  | .null | .bool _ | .integer _ | .float _ | .string _ => 0

/-- The greatest number of arrays and objects inside each other in an item. -/
def itemsNesting : List Json → Nat
  | [] => 0
  | item :: rest => max item.nesting (itemsNesting rest)

/-- The greatest number of arrays and objects inside each other in a member. -/
def membersNesting : List (String × Json) → Nat
  | [] => 0
  | (_, value) :: rest => max value.nesting (membersNesting rest)

end

mutual

/-- The document with each binary64 number changed, if all of them can be. -/
def changed? (change : Float → Option Float) : Json → Option Json
  | .float x => (change x).map .float
  | .array items => (itemsChanged? change items).map .array
  | .object members => (membersChanged? change members).map .object
  | scalar => some scalar

/-- The items with each binary64 number changed. -/
def itemsChanged? (change : Float → Option Float) : List Json → Option (List Json)
  | [] => some []
  | item :: rest => do
    let first ← item.changed? change
    return first :: (← itemsChanged? change rest)

/-- The members with each binary64 number changed. -/
def membersChanged? (change : Float → Option Float) :
    List (String × Json) → Option (List (String × Json))
  | [] => some []
  | (name, value) :: rest => do
    let first := (name, ← value.changed? change)
    return first :: (← membersChanged? change rest)

end

variable {change : Float → Option Float} {item value : Json} {items : List Json} {name : String}
  {members : List (String × Json)} {scalar : Json}

/-- The scalars of items are those of each of them. -/
theorem mem_itemScalars_iff :
    scalar ∈ itemScalars items ↔ ∃ item ∈ items, scalar ∈ item.scalars := by
  induction items with
  | nil => simp [itemScalars]
  | cons item rest ih => simp [itemScalars, ih]

/-- No item nests deeper than all of them. -/
theorem nesting_le_itemsNesting (inside : item ∈ items) : item.nesting ≤ itemsNesting items := by
  induction items with
  | nil => cases inside
  | cons first rest ih =>
    rw [itemsNesting]
    rcases List.mem_cons.1 inside with rfl | later
    · exact Nat.le_max_left _ _
    · exact (ih later).trans (Nat.le_max_right _ _)

/-- No member nests deeper than all of them. -/
theorem nesting_le_membersNesting (inside : (name, value) ∈ members) :
    value.nesting ≤ membersNesting members := by
  induction members with
  | nil => cases inside
  | cons first rest ih =>
    rw [membersNesting]
    rcases List.mem_cons.1 inside with rfl | later
    · exact Nat.le_max_left _ _
    · exact (ih later).trans (Nat.le_max_right _ _)

/-- Items are changed one by one. -/
theorem itemsChanged?_cons_eq_some_iff {changed : List Json} :
    itemsChanged? change (item :: items) = some changed ↔
      ∃ first others, item.changed? change = some first ∧
        itemsChanged? change items = some others ∧ changed = first :: others := by
  simp only [itemsChanged?, Option.bind_eq_bind, Option.bind_eq_some_iff, Option.pure_def,
    Option.some.injEq]
  constructor
  · rintro ⟨first, head, others, tail, rfl⟩
    exact ⟨first, others, head, tail, rfl⟩
  · rintro ⟨first, others, head, tail, rfl⟩
    exact ⟨first, head, others, tail, rfl⟩

/-- Members are changed one by one and keep their names. -/
theorem membersChanged?_cons_eq_some_iff {changed : List (String × Json)} :
    membersChanged? change ((name, value) :: members) = some changed ↔
      ∃ first others, value.changed? change = some first ∧
        membersChanged? change members = some others ∧ changed = (name, first) :: others := by
  simp only [membersChanged?, Option.bind_eq_bind, Option.bind_eq_some_iff, Option.pure_def,
    Option.some.injEq]
  constructor
  · rintro ⟨first, head, others, tail, rfl⟩
    exact ⟨first, others, head, tail, rfl⟩
  · rintro ⟨first, others, head, tail, rfl⟩
    exact ⟨first, head, others, tail, rfl⟩

mutual

/-- A document stays as it is exactly if none of its binary64 numbers changes. -/
theorem changed?_eq_self_iff (document : Json) :
    document.changed? change = some document ↔
      ∀ x, .float x ∈ document.scalars → change x = some x := by
  cases document with
  | null | bool | integer | string => simp [changed?, scalars]
  | float x => simp [changed?, scalars]
  | array items => simpa [changed?, scalars] using itemsChanged?_eq_self_iff items
  | object members => simpa [changed?, scalars] using membersChanged?_eq_self_iff members

/-- Items stay as they are exactly if none of their binary64 numbers changes. -/
theorem itemsChanged?_eq_self_iff (items : List Json) :
    itemsChanged? change items = some items ↔
      ∀ x, .float x ∈ itemScalars items → change x = some x := by
  cases items with
  | nil => simp [itemsChanged?, itemScalars]
  | cons item rest =>
    have head := @changed?_eq_self_iff item
    have tail := @itemsChanged?_eq_self_iff rest
    rw [itemsChanged?_cons_eq_some_iff]
    simp only [itemScalars, List.mem_append, or_imp, forall_and, ← head, ← tail]
    constructor
    · rintro ⟨first, others, front, back, same⟩
      cases same
      exact ⟨front, back⟩
    · rintro ⟨front, back⟩
      exact ⟨item, rest, front, back, rfl⟩

/-- Members stay as they are exactly if none of their binary64 numbers changes. -/
theorem membersChanged?_eq_self_iff (members : List (String × Json)) :
    membersChanged? change members = some members ↔
      ∀ x, .float x ∈ memberScalars members → change x = some x := by
  cases members with
  | nil => simp [membersChanged?, memberScalars]
  | cons member rest =>
    obtain ⟨name, value⟩ := member
    have head := @changed?_eq_self_iff value
    have tail := @membersChanged?_eq_self_iff rest
    rw [membersChanged?_cons_eq_some_iff]
    simp only [memberScalars, List.mem_append, or_imp, forall_and, ← head, ← tail]
    constructor
    · rintro ⟨first, others, front, back, same⟩
      cases same
      exact ⟨front, back⟩
    · rintro ⟨front, back⟩
      exact ⟨value, rest, front, back, rfl⟩

end

end CommandGrammar.Json
