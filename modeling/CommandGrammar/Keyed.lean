/-!
# Maps kept in key order

A map is a list of pairs whose keys increase. One map has one list, so equality
of maps is equality of lists, and reading the list is reading the map in order.
-/

namespace CommandGrammar

/-- A finite map as the list of its entries. -/
abbrev Keyed (κ α : Type) := List (κ × α)

namespace Keyed

/-- The keys increase strictly. -/
def Ordered {κ α : Type} [Ord κ] (entries : Keyed κ α) : Prop :=
  entries.Pairwise fun left right => compare left.1 right.1 = .lt

/-- The value stored under a key. -/
def find? {κ α : Type} [DecidableEq κ] (key : κ) : Keyed κ α → Option α
  | [] => none
  | entry :: rest => if entry.1 = key then some entry.2 else find? key rest

/-- The keys, in order. -/
def keys {κ α : Type} (entries : Keyed κ α) : List κ := entries.map Prod.fst

/-- Stores a value under a key, in place of the value that was there. -/
def insert {κ α : Type} [Ord κ] (key : κ) (value : α) : Keyed κ α → Keyed κ α
  | [] => [(key, value)]
  | entry :: rest =>
    match compare key entry.1 with
    | .lt => (key, value) :: entry :: rest
    | .eq => (key, value) :: rest
    | .gt => entry :: insert key value rest

/-- Stores a value under a key that is free, and changes nothing otherwise. -/
def insertNew {κ α : Type} [Ord κ] [DecidableEq κ] (key : κ) (value : α)
    (entries : Keyed κ α) : Keyed κ α :=
  if (find? key entries).isSome then entries else insert key value entries

/-- The map of a list of entries; of several entries with one key the last stays. -/
def ofEntries {κ α : Type} [Ord κ] (entries : List (κ × α)) : Keyed κ α :=
  entries.foldl (fun map entry => insert entry.1 entry.2 map) []

/-- Every key of a map with one more entry is the new key or an old one. -/
theorem mem_insert {κ α : Type} [Ord κ] {key : κ} {value : α} {map : Keyed κ α}
    {entry : κ × α} (member : entry ∈ insert key value map) : entry = (key, value) ∨ entry ∈ map := by
  induction map with
  | nil => simpa [insert] using member
  | cons head rest ih =>
    simp only [insert] at member
    split at member
    · simpa using member
    · rcases List.mem_cons.1 member with same | later
      · exact .inl same
      · exact .inr (List.mem_cons_of_mem _ later)
    · rcases List.mem_cons.1 member with same | later
      · exact .inr (same ▸ List.mem_cons_self)
      · exact (ih later).imp_right (List.mem_cons_of_mem _)

/-- Storing keeps the keys in order. -/
theorem Ordered.insert {κ α : Type} [Ord κ] [Std.TransOrd κ] [Std.LawfulEqOrd κ]
    {map : Keyed κ α} (ordered : Ordered map) (key : κ) (value : α) :
    Ordered (insert key value map) := by
  induction map with
  | nil => simp [Keyed.insert, Ordered]
  | cons head rest ih =>
    have ⟨least, sorted⟩ := List.pairwise_cons.1 ordered
    simp only [Keyed.insert]
    split
    · next below =>
      refine List.pairwise_cons.2 ⟨fun entry member => ?_, ordered⟩
      rcases List.mem_cons.1 member with same | later
      · exact same ▸ below
      · exact Std.TransCmp.lt_trans below (least entry later)
    · next same =>
      have same : key = head.1 := Std.LawfulEqCmp.eq_of_compare same
      exact List.pairwise_cons.2 ⟨fun entry member => same ▸ least entry member, sorted⟩
    · next above =>
      refine List.pairwise_cons.2 ⟨fun entry member => ?_, ih sorted⟩
      rcases mem_insert member with same | later
      · exact same ▸ Std.OrientedCmp.lt_of_gt above
      · exact least entry later

/-- A stored value is found again. -/
theorem find?_insert_self {κ α : Type} [Ord κ] [Std.LawfulEqOrd κ] [DecidableEq κ] (key : κ) (value : α) (map : Keyed κ α) :
    find? key (insert key value map) = some value := by
  induction map with
  | nil => simp [insert, find?]
  | cons head rest ih =>
    simp only [insert]
    split
    · simp [find?]
    · simp [find?]
    · next above =>
      have differs : head.1 ≠ key := fun same => by
        have self : compare key key = .eq := Std.ReflCmp.compare_self
        rw [same, self] at above
        contradiction
      simp [find?, differs, ih]

/-- Storing under one key leaves every other key as it was. -/
theorem find?_insert_of_ne {κ α : Type} [Ord κ] [Std.LawfulEqOrd κ] [DecidableEq κ]
    {key other : κ} (differs : other ≠ key) (value : α) (map : Keyed κ α) : find? other (insert key value map) = find? other map := by
  induction map with
  | nil => simp [insert, find?, Ne.symm differs]
  | cons head rest ih =>
    simp only [insert]
    split
    · simp [find?, Ne.symm differs]
    · next same =>
      have same : key = head.1 := Std.LawfulEqCmp.eq_of_compare same
      simp [find?, ← same, Ne.symm differs]
    · simp [find?, ih]

/-- The keys of a map with one more entry are its key and the old ones. -/
theorem mem_keys_insert {κ α : Type} [Ord κ] [Std.LawfulEqOrd κ] {key other : κ} {value : α}
    {map : Keyed κ α} : other ∈ keys (insert key value map) ↔ other = key ∨ other ∈ keys map := by
  induction map with
  | nil => simp [insert, keys]
  | cons head rest ih =>
    simp only [insert]
    split
    · simp [keys]
    · next same =>
      have same : key = head.1 := Std.LawfulEqCmp.eq_of_compare same
      simp [keys, same]
    · simp only [keys, List.map_cons, List.mem_cons] at ih ⊢
      rw [ih, or_left_comm]

/-- The keys of a map of entries are those of the entries. -/
theorem mem_keys_ofEntries {κ α : Type} [Ord κ] [Std.LawfulEqOrd κ] {key : κ}
    {entries : List (κ × α)} : key ∈ keys (ofEntries entries) ↔ key ∈ entries.map Prod.fst := by
  suffices ∀ map : Keyed κ α, key ∈ keys (entries.foldl
      (fun map entry => insert entry.1 entry.2 map) map) ↔
      key ∈ entries.map Prod.fst ∨ key ∈ keys map by simpa [keys, ofEntries] using this []
  intro map
  induction entries generalizing map with
  | nil => simp
  | cons entry rest ih =>
    rw [List.foldl_cons, ih, mem_keys_insert, List.map_cons, List.mem_cons, or_left_comm, or_assoc]

/-- A map of entries is in key order. -/
theorem ordered_ofEntries {κ α : Type} [Ord κ] [Std.TransOrd κ] [Std.LawfulEqOrd κ]
    (entries : List (κ × α)) : Ordered (ofEntries entries) := by
  suffices ∀ map : Keyed κ α, Ordered map →
      Ordered (entries.foldl (fun map entry => insert entry.1 entry.2 map) map) from
    this [] List.Pairwise.nil
  intro map ordered
  induction entries generalizing map with
  | nil => exact ordered
  | cons entry rest ih => exact ih _ (ordered.insert entry.1 entry.2)

end Keyed

end CommandGrammar
