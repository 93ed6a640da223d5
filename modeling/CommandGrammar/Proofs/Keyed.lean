import Mathlib
import CommandGrammar.Keyed

/-!
# Maps and what they have under their keys

What is found in a map is an entry, and in a map that is in order every entry is found. So two maps
in order are one if they have the same under every key. Entries under different keys may be stored
in any order.
-/

namespace CommandGrammar

namespace Keyed

section

variable {κ α : Type} [Ord κ] [DecidableEq κ] {entries : Keyed κ α} {key : κ} {value : α}

omit [Ord κ] in
/-- What is found is an entry. -/
theorem mem_of_find? (found : find? key entries = some value) : (key, value) ∈ entries := by
  induction entries with
  | nil => cases found
  | cons entry rest ih =>
    rw [find?] at found
    split at found
    · next same =>
      obtain ⟨first, second⟩ := entry
      simp only at same
      cases found
      exact same ▸ List.mem_cons_self
    · exact List.mem_cons_of_mem _ (ih found)

omit [DecidableEq κ] in
/-- No key is less than itself. -/
theorem compare_self_ne_lt [Std.ReflOrd κ] (key : κ) : compare key key ≠ .lt := by
  have self : compare key key = .eq := Std.ReflCmp.compare_self
  rw [self]
  exact nofun

/-- In a map that is in order every entry is found. -/
theorem find?_of_mem [Std.ReflOrd κ] (ordered : Ordered entries) (member : (key, value) ∈ entries) :
    find? key entries = some value := by
  induction entries with
  | nil => cases member
  | cons entry rest ih =>
    obtain ⟨least, sorted⟩ := List.pairwise_cons.1 ordered
    rw [find?]
    rcases List.mem_cons.1 member with same | later
    · rw [← same]
      exact if_pos rfl
    · have below := least _ later
      have differs : entry.1 ≠ key := by
        intro same
        rw [same] at below
        exact compare_self_ne_lt key below
      rw [if_neg differs]
      exact ih sorted later

/-- Under a key a map of entries has the value of the last entry with that key. -/
theorem find?_ofEntries_iff [Std.LawfulEqOrd κ] {entries : List (κ × α)} :
    find? key (ofEntries entries) = some value ↔ ∃ before after,
      entries = before ++ (key, value) :: after ∧ ∀ later ∈ after, later.1 ≠ key := by
  induction entries using List.reverseRecOn with
  | nil => simp [ofEntries, find?]
  | append_singleton entries last ih =>
    have stored : ofEntries (entries ++ [last]) = insert last.1 last.2 (ofEntries entries) := by
      rw [ofEntries, List.foldl_append]
      rfl
    rw [stored]
    have split {before after : List (κ × α)}
        (parts : entries ++ [last] = before ++ (key, value) :: after) :
        (after = [] ∧ last = (key, value)) ∨
          ∃ more, after = more ++ [last] ∧ entries = before ++ (key, value) :: more := by
      rcases List.eq_nil_or_concat after with rfl | ⟨more, other, rfl⟩
      · exact .inl ⟨rfl, by simpa using (List.append_inj' parts rfl).2⟩
      · rw [List.concat_eq_append, ← List.cons_append, ← List.append_assoc] at parts
        obtain ⟨front, back⟩ := List.append_inj' parts rfl
        obtain rfl := (List.cons.inj back).1
        exact .inr ⟨more, List.concat_eq_append, front⟩
    by_cases same : key = last.1
    · rw [same, find?_insert_self, Option.some.injEq]
      constructor
      · rintro rfl
        exact ⟨entries, [], rfl, by simp⟩
      · rintro ⟨before, after, parts, none_later⟩
        rcases split (same ▸ parts) with ⟨_, rfl⟩ | ⟨more, rfl, _⟩
        · rfl
        · exact absurd rfl (none_later last (by simp))
    · rw [find?_insert_of_ne same, ih]
      constructor
      · rintro ⟨before, after, rfl, none_later⟩
        refine ⟨before, after ++ [last], by simp, fun later member => ?_⟩
        rcases List.mem_append.1 member with inside | final
        · exact none_later later inside
        · exact List.mem_singleton.1 final ▸ Ne.symm same
      · rintro ⟨before, after, parts, none_later⟩
        rcases split parts with ⟨_, rfl⟩ | ⟨more, rfl, front⟩
        · exact absurd rfl same
        · exact ⟨before, more, front, fun later member =>
            none_later later (List.mem_append_left _ member)⟩

end

variable {α : Type} {entries more : Keyed String α} {key other : String} {value : α}

/-- Two maps in order that have the same under every key are one. -/
theorem Ordered.ext (first : Ordered entries) (second : Ordered more)
    (same : ∀ key, find? key entries = find? key more) : entries = more := by
  have distinct {map : Keyed String α} (ordered : Ordered map) : map.Nodup := by
    refine ordered.imp fun below equal => ?_
    rw [equal] at below
    exact compare_self_ne_lt _ below
  have members (entry : String × α) : entry ∈ entries ↔ entry ∈ more := by
    constructor
    · intro member
      exact mem_of_find? ((same entry.1).symm.trans (find?_of_mem first member))
    · intro member
      exact mem_of_find? ((same entry.1).trans (find?_of_mem second member))
  have permuted := (List.perm_ext_iff_of_nodup (distinct first) (distinct second)).2 members
  refine permuted.eq_of_pairwise (fun left right _ _ below above => ?_) first second
  exact absurd (Std.TransCmp.lt_trans below above) (compare_self_ne_lt left.1)

/-- What is stored last under a key stays. -/
theorem insert_insert (key : String) (value held : α) (map : Keyed String α) :
    insert key value (insert key held map) = insert key value map := by
  have self : compare key key = .eq := Std.ReflCmp.compare_self
  induction map with
  | nil => simp only [insert, self]
  | cons entry rest ih =>
    cases place : compare key entry.1 with
    | lt | eq => simp only [insert, place, self]
    | gt => simp only [insert, place, ih]

/-- Values are stored under different keys in any order. -/
theorem insert_comm (differs : key ≠ other) (value held : α) (map : Keyed String α) :
    insert key value (insert other held map) = insert other held (insert key value map) := by
  have increasing {key other : String} (below : compare key other = .lt) (value held : α) :
      insert key value (insert other held map) = insert other held (insert key value map) := by
    have above : compare other key = .gt := Std.OrientedCmp.gt_of_lt below
    induction map with
    | nil => simp only [insert, below, above]
    | cons entry rest ih =>
      cases place : compare other entry.1 with
      | lt =>
        have earlier : compare key entry.1 = .lt := Std.TransCmp.lt_trans below place
        simp only [insert, place, earlier, below, above]
      | eq =>
        have earlier : compare key entry.1 = .lt := Std.TransCmp.lt_of_lt_of_eq below place
        simp only [insert, place, earlier, below, above]
      | gt =>
        cases earlier : compare key entry.1 with
        | lt | eq => simp only [insert, place, earlier, above]
        | gt => simp only [insert, place, earlier, ih]
  cases order : compare key other with
  | lt => exact increasing order value held
  | eq => exact absurd (Std.LawfulEqCmp.eq_of_compare order) differs
  | gt => exact (increasing (Std.OrientedCmp.lt_of_gt order) held value).symm

end Keyed

end CommandGrammar
