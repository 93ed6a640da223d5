import Mathlib
import CommandGrammar.Proofs.Value.Precedence

/-!
# Laws of merging

Preferring the overlay is preferring the base with the two sides swapped. A value merged with
itself stays as it is, and a value that was merged in already changes nothing when it is merged in
again. Uniting two lists keeps the first one and appends, once each, the items of the second one
that it lacks. The laws need items that equal themselves, so that no number may be undefined.
-/

namespace CommandGrammar

namespace Value

variable {value base overlay inner : Value} {entries more : List (String × Value)}
  {items added : List Value} {key : String} {strategy : MergeStrategy}

/-! ## Defined values -/

mutual

/-- No number in a value is undefined, at any depth of lists and maps. -/
def IsDefined : Value → Prop
  | .float x => x.isNaN = false
  | .list items => ItemsDefined items
  | .map entries => EntriesDefined entries
  | .bool _ | .integer _ | .string _ => True

/-- No number in some items is undefined. -/
def ItemsDefined : List Value → Prop
  | [] => True
  | item :: rest => item.IsDefined ∧ ItemsDefined rest

/-- No number in the values of some entries is undefined. -/
def EntriesDefined : List (String × Value) → Prop
  | [] => True
  | (_, value) :: rest => value.IsDefined ∧ EntriesDefined rest

end

/-- Items are defined exactly if each of them is. -/
theorem itemsDefined_iff : ItemsDefined items ↔ ∀ item ∈ items, item.IsDefined := by
  induction items with
  | nil => simp [ItemsDefined]
  | cons item rest ih => rw [ItemsDefined, ih, List.forall_mem_cons]

/-- Entries are defined exactly if the value of each of them is. -/
theorem entriesDefined_iff : EntriesDefined entries ↔ ∀ entry ∈ entries, entry.2.IsDefined := by
  induction entries with
  | nil => simp [EntriesDefined]
  | cons entry rest ih => rw [EntriesDefined, ih, List.forall_mem_cons]

/-- What a defined map has under a key is defined. -/
theorem IsDefined.find? (defined : (Value.map entries).IsDefined)
    (found : Keyed.find? key entries = some inner) : inner.IsDefined := by
  rw [IsDefined] at defined
  exact entriesDefined_iff.1 defined _ (Keyed.mem_of_find? found)

mutual

/-- A defined value equals itself. -/
theorem same_self (value : Value) (defined : value.IsDefined) : value.same value = true := by
  cases value with
  | bool | integer | string => simp [same]
  | float x =>
    rw [IsDefined, Float.isNaN_eq_decide_eq_nan, decide_eq_false_iff_not] at defined
    rw [same, Float.beq_iff_ne_nan_and_eq]
    exact ⟨defined, defined, .inl rfl⟩
  | list items =>
    rw [IsDefined] at defined
    rw [same]
    exact sameItems_self items defined
  | map entries =>
    rw [IsDefined] at defined
    rw [same]
    exact sameEntries_self entries defined

/-- Defined items equal themselves. -/
theorem sameItems_self (items : List Value) (defined : ItemsDefined items) :
    sameItems items items = true := by
  cases items with
  | nil => rfl
  | cons item rest =>
    rw [sameItems, Bool.and_eq_true]
    exact ⟨same_self item defined.1, sameItems_self rest defined.2⟩

/-- Defined entries equal themselves. -/
theorem sameEntries_self (entries : List (String × Value)) (defined : EntriesDefined entries) :
    sameEntries entries entries = true := by
  cases entries with
  | nil => rfl
  | cons entry rest =>
    obtain ⟨key, value⟩ := entry
    rw [sameEntries, Bool.and_eq_true, Bool.and_eq_true]
    exact ⟨⟨beq_self_eq_true key, same_self value defined.1⟩, sameEntries_self rest defined.2⟩

end

/-! ## Appended items -/

/-- Some item of a list equals a given one. -/
def HoldsEqual (items : List Value) (item : Value) : Prop := ∃ held ∈ items, held.same item = true

/-- The items that a list of further ones appends to a list: some of them, in their order, none of
which equals one that is there already. -/
structure Appends (items more added : List Value) : Prop where
  /-- They are further items. -/
  further : added.Sublist more
  /-- None equals an item of the list. -/
  new : ∀ item ∈ added, ¬HoldsEqual items item
  /-- None equals an appended item before it. -/
  once : added.Pairwise fun earlier later => earlier.same later = false

/-- What is appended to a list comes after it, and no item is appended that is there already. -/
theorem exists_appendNew (items more : List Value) :
    ∃ added, appendNew items more = items ++ added ∧ Appends items more added := by
  induction more generalizing items with
  | nil =>
    refine ⟨[], ?_, List.Sublist.refl _, nofun, List.Pairwise.nil⟩
    rw [appendNew, List.append_nil]
  | cons item rest ih =>
    rw [appendNew]
    by_cases there : items.any (·.same item) = true
    · rw [if_pos there]
      obtain ⟨added, appended, appends⟩ := ih items
      exact ⟨added, appended, appends.further.cons item, appends.new, appends.once⟩
    · rw [if_neg there]
      obtain ⟨added, appended, appends⟩ := ih (items ++ [item])
      refine ⟨item :: added, ?_, appends.further.cons_cons item, ?_, ?_⟩
      · rw [appended, List.append_assoc, List.singleton_append]
      · refine List.forall_mem_cons.2 ⟨?_, fun later member has => ?_⟩
        · intro has
          exact there (List.any_eq_true.2 has)
        · obtain ⟨held, inside, same⟩ := has
          exact appends.new later member ⟨held, List.mem_append_left _ inside, same⟩
      · refine List.pairwise_cons.2 ⟨fun later member => ?_, appends.once⟩
        rw [Bool.eq_false_iff]
        intro same
        exact appends.new later member
          ⟨item, List.mem_append_right _ (List.mem_singleton_self item), same⟩

/-- A list to which items were appended has an equal of each defined one. -/
theorem has_appendNew {more : List Value} {item : Value} (member : item ∈ more)
    (defined : item.IsDefined) : HoldsEqual (appendNew items more) item := by
  induction more generalizing items with
  | nil => cases member
  | cons next rest ih =>
    rw [appendNew]
    rcases List.mem_cons.1 member with rfl | later
    · -- Whether the item was there or is appended now, an equal stays where it is.
      have kept {before : List Value} (has : HoldsEqual before item) :
          HoldsEqual (appendNew before rest) item := by
        obtain ⟨added, appended, _⟩ := exists_appendNew before rest
        obtain ⟨held, inside, same⟩ := has
        rw [appended]
        exact ⟨held, List.mem_append_left _ inside, same⟩
      by_cases there : items.any (·.same item) = true
      · rw [if_pos there]
        exact kept (List.any_eq_true.1 there)
      · rw [if_neg there]
        apply kept
        exact ⟨item, List.mem_append_right _ (List.mem_singleton_self item),
          same_self item defined⟩
    · split
      · exact ih later
      · exact ih later

/-- Nothing is appended to a list that has an equal of each item. -/
theorem appendNew_of_has {more : List Value} (has : ∀ item ∈ more, HoldsEqual items item) :
    appendNew items more = items := by
  induction more with
  | nil => rw [appendNew]
  | cons item rest ih =>
    obtain ⟨own, later⟩ := List.forall_mem_cons.1 has
    rw [appendNew, if_pos (List.any_eq_true.2 own)]
    exact ih later

/-- Nothing of a defined list is appended to itself. -/
theorem appendNew_self (defined : ItemsDefined items) : appendNew items items = items := by
  apply appendNew_of_has
  intro item member
  exact ⟨item, member, same_self item (itemsDefined_iff.1 defined item member)⟩

/-- A list that was appended already is not appended again. -/
theorem appendNew_again {more : List Value} (defined : ItemsDefined more) :
    appendNew (appendNew items more) more = appendNew items more := by
  apply appendNew_of_has
  intro item member
  exact has_appendNew member (itemsDefined_iff.1 defined item member)

/-! ## Values that are not both maps -/

/-- Two values that are not both maps are merged by the strategy's choice. -/
theorem merge_eq_choose (form : base.map? = none ∨ overlay.map? = none) :
    base.merge strategy overlay = strategy.choose base overlay := by
  cases overlay with
  | map more =>
    cases base with
    | map entries => rcases form with form | form <;> cases form
    | _ =>
      rw [merge]
      intro entries same
      cases same
  | _ => rw [merge]

/-- A strategy chooses the base, or it chooses the overlay, or it appends one list to the other. -/
theorem choose_cases (strategy : MergeStrategy) (base overlay : Value) :
    (strategy = .preferBase ∧ strategy.choose base overlay = base) ∨
      strategy.choose base overlay = overlay ∨
      ∃ items more, strategy = .union ∧ base = .list items ∧ overlay = .list more ∧
        strategy.choose base overlay = .list (appendNew items more) := by
  cases strategy with
  | preferBase => exact .inl ⟨rfl, rfl⟩
  | preferOverlay => exact .inr (.inl rfl)
  | union =>
    cases overlay with
    | list more =>
      cases base with
      | list items => exact .inr (.inr ⟨items, more, rfl, rfl, rfl, rfl⟩)
      | _ => exact .inr (.inl rfl)
    | _ =>
      right; left
      cases base <;> rfl

/-- A value is chosen over itself. -/
theorem choose_self (defined : value.IsDefined) : strategy.choose value value = value := by
  obtain ⟨_, kept⟩ | taken | ⟨items, more, _, rfl, same, appended⟩ :=
    choose_cases strategy value value
  · exact kept
  · exact taken
  · obtain rfl := Value.list.inj same
    rw [IsDefined] at defined
    rw [appended, appendNew_self defined]

/-! ## Merged values -/

/-- Two maps merge to a third one if that is in order and has under each key what the two have
there, merged. -/
theorem map_merge_eq {merged : List (String × Value)} (first : Keyed.Ordered entries)
    (second : Keyed.Ordered more) (ordered : Keyed.Ordered merged)
    (each : ∀ key, Keyed.find? key merged =
      (Keyed.find? key more).elim (Keyed.find? key entries) fun value =>
        some ((Keyed.find? key entries).elim value fun old => old.merge strategy value)) :
    (Value.map entries).merge strategy (.map more) = .map merged := by
  rw [map_merge]
  refine congrArg Value.map (Keyed.Ordered.ext (ordered_mergeEntries first) ordered fun key => ?_)
  rw [find?_mergeEntries second, each]

/-- Preferring the overlay is preferring the base with the sides swapped. -/
theorem merge_swap (first : base.IsOrdered) (second : overlay.IsOrdered) :
    base.merge .preferOverlay overlay = overlay.merge .preferBase base := by
  induction base using induction_on_entries generalizing overlay with
  | leaf base form =>
    rw [merge_eq_choose (.inl form), merge_eq_choose (.inr form)]
    rfl
  | map entries ih =>
    obtain ⟨more, rfl⟩ | form := overlay.eq_map_or_leaf
    · have sorted := first [] entries rfl
      have sorted' := second [] more rfl
      rw [@map_merge more entries]
      refine map_merge_eq sorted sorted' (ordered_mergeEntries sorted') fun key => ?_
      rw [find?_mergeEntries sorted]
      cases own : Keyed.find? key entries with
      | none => cases Keyed.find? key more <;> rfl
      | some value =>
        cases other : Keyed.find? key more with
        | none => rfl
        | some value' =>
          exact congrArg some (ih key value own (first.find? own) (second.find? other)).symm
    · rw [merge_eq_choose (.inr form), merge_eq_choose (.inl form)]
      rfl

/-- A value merged with itself stays as it is. -/
theorem merge_self (ordered : value.IsOrdered) (defined : value.IsDefined) :
    value.merge strategy value = value := by
  induction value using induction_on_entries with
  | leaf value form => rw [merge_eq_choose (.inl form), choose_self defined]
  | map entries ih =>
    have sorted := ordered [] entries rfl
    refine map_merge_eq sorted sorted sorted fun key => ?_
    cases found : Keyed.find? key entries with
    | none => rfl
    | some inner =>
      exact congrArg some (ih key inner found (ordered.find? found) (defined.find? found)).symm

/-- A value that was merged in changes nothing when it is merged in again. -/
theorem merge_again (first : base.IsOrdered) (second : overlay.IsOrdered)
    (defined : overlay.IsDefined) :
    (base.merge strategy overlay).merge strategy overlay = base.merge strategy overlay := by
  have chosen {base overlay : Value} (second : overlay.IsOrdered) (defined : overlay.IsDefined)
      (form : base.map? = none ∨ overlay.map? = none) :
      (base.merge strategy overlay).merge strategy overlay = base.merge strategy overlay := by
    rw [merge_eq_choose form]
    obtain ⟨_, kept⟩ | taken | ⟨items, more, rfl, rfl, rfl, appended⟩ :=
      choose_cases strategy base overlay
    · rw [kept, merge_eq_choose form, kept]
    · rw [taken, merge_self second defined]
    · rw [IsDefined] at defined
      rw [appended, merge_eq_choose (.inl rfl), MergeStrategy.choose, appendNew_again defined]
  induction base using induction_on_entries generalizing overlay with
  | leaf base form => exact chosen second defined (.inl form)
  | map entries ih =>
    obtain ⟨more, rfl⟩ | form := overlay.eq_map_or_leaf
    · have sorted := second [] more rfl
      have ordered : Keyed.Ordered (mergeEntries strategy entries more entries) :=
        ordered_mergeEntries (first [] entries rfl)
      rw [@map_merge entries more]
      refine map_merge_eq ordered sorted ordered fun key => ?_
      rw [find?_mergeEntries sorted]
      cases new : Keyed.find? key more with
      | none => rfl
      | some value =>
        have own := second.find? new
        have clear := defined.find? new
        cases old : Keyed.find? key entries with
        | none => exact congrArg some (merge_self own clear).symm
        | some held => exact congrArg some (ih key held old (first.find? old) own clear).symm
    · exact chosen second defined (.inr form)

/-- The laws of merging a value into another one. -/
structure MergesLawfully (base overlay : Value) : Prop where
  /-- Preferring the overlay is preferring the base with the sides swapped. -/
  swapped : base.merge .preferOverlay overlay = overlay.merge .preferBase base
  /-- Merged with itself a value stays as it is. -/
  unchanged : ∀ strategy, base.merge strategy base = base
  /-- What was merged in changes nothing when it is merged in again. -/
  settled : ∀ strategy,
    (base.merge strategy overlay).merge strategy overlay = base.merge strategy overlay
  /-- United lists begin with the first one as it is and have an equal of each item of the second
  one; what is appended are items of the second one, each of which the list before it lacks. -/
  united : ∀ items more, base = .list items → overlay = .list more →
    ∃ added, base.merge .union overlay = .list (items ++ added) ∧ Appends items more added ∧
      ∀ item ∈ more, HoldsEqual (items ++ added) item

/-- Values in order, without undefined numbers, are merged by these laws. -/
theorem merging_lawful (first : base.IsOrdered) (second : overlay.IsOrdered)
    (defined : base.IsDefined) (defined' : overlay.IsDefined) : base.MergesLawfully overlay := by
  constructor
  case swapped => exact merge_swap first second
  case unchanged => exact fun strategy => merge_self first defined
  case settled => exact fun strategy => merge_again first second defined'
  case united =>
    rintro items more rfl rfl
    obtain ⟨added, appended, appends⟩ := exists_appendNew items more
    rw [IsDefined, itemsDefined_iff] at defined'
    refine ⟨added, ?_, appends, fun item member => ?_⟩
    · rw [merge_eq_choose (.inl rfl), MergeStrategy.choose, appended]
    · rw [← appended]
      exact has_appendNew member (defined' item member)

/-- Tags with a text and an integer. -/
def tags : Value := .list [.string "x", .integer 1]

/-- Tags with a text that is repeated and a number that is no integer. -/
def otherTags : Value := .list [.string "y", .string "x", .string "y", .float 1]

/-- Settings with a level and tags. -/
def tagged : Value := .map [("level", .string "low"), ("tags", tags)]

/-- Settings with a level of another shape and other tags. -/
def otherTagged : Value := .map [("level", .map [("file", .string "high")]), ("tags", otherTags)]

/-- The tags and the settings with them are merged lawfully: united, they keep the integer and get
the number, which equals no integer. -/
theorem tagged_merged : tagged.IsOrdered ∧ otherTagged.IsOrdered ∧ tagged.IsDefined ∧
    otherTagged.IsDefined ∧ tagged.MergesLawfully otherTagged ∧ tags.MergesLawfully otherTags ∧
    tagged.merge .union otherTagged = .map [("level", .map [("file", .string "high")]),
      ("tags", .list [.string "x", .integer 1, .string "y", .float 1])] := by
  have ordered : tagged.IsOrdered ∧ otherTagged.IsOrdered := by
    constructor
    all_goals
      apply IsPlain.isOrdered
      simp [tagged, otherTagged, tags, otherTags, IsPlain, EntriesPlain, Keyed.Ordered, IsKey]
      decide
  have listed : tags.IsOrdered ∧ otherTags.IsOrdered :=
    ⟨IsPlain.isOrdered trivial, IsPlain.isOrdered trivial⟩
  have number : (1 : Float).isNaN = false := by decide +kernel
  have own : tags.IsDefined := ⟨trivial, trivial, trivial⟩
  have other : otherTags.IsDefined := ⟨trivial, trivial, trivial, number, trivial⟩
  have defined : tagged.IsDefined := ⟨trivial, own, trivial⟩
  have defined' : otherTagged.IsDefined := ⟨⟨trivial, trivial⟩, other, trivial⟩
  exact ⟨ordered.1, ordered.2, defined, defined',
    merging_lawful ordered.1 ordered.2 defined defined',
    merging_lawful listed.1 listed.2 own other, rfl⟩

end Value

end CommandGrammar
