import Mathlib
import CommandGrammar.Proofs.Placed
import CommandGrammar.Proofs.Schema.Check

/-!
# Rearranged schemas

The order in which a command declares its parameters and subcommands, and the order in which a flag
lists its triggers, are not part of what the check of a schema asks. Two command trees are
rearranged if they differ in these orders alone, at any number of commands. This goes both ways, and
if one of them passes the check, so does the other.
-/

namespace CommandGrammar

/-- Items that are, in another order, related to others one by one. -/
def Rearranges {α β : Type} (related : α → β → Prop) : List α → List β → Prop :=
  Relation.Comp List.Perm (List.Forall₂ related)

namespace Rearranges

variable {α β γ : Type} {related : α → β → Prop} {items : List α} {others : List β}

/-- Each of the items is related to one of the others. -/
theorem exists_of_mem (rearranged : Rearranges related items others) {item : α}
    (member : item ∈ items) : ∃ other ∈ others, related item other := by
  obtain ⟨_, order, each⟩ := rearranged
  exact exists_related_of_mem each (order.mem_iff.1 member)

/-- The others are, in another order, related to the items one by one. -/
theorem flip {back : β → α → Prop} (rearranged : Rearranges related items others)
    (turn : ∀ item ∈ items, ∀ other, related item other → back other item) :
    Rearranges back others items := by
  obtain ⟨middle, order, each⟩ := rearranged
  have turned : List.Forall₂ back others middle := by
    have both := (List.forall₂_and_left (p := fun item => item ∈ items) middle others).2
      ⟨fun item member => order.mem_iff.2 member, each⟩
    exact both.flip.imp fun other item ⟨member, holds⟩ => turn item member other holds
  -- To relate and then reorder is to reorder and then relate.
  rw [Rearranges, ← List.forall₂_comp_perm_eq_perm_comp_forall₂]
  exact ⟨middle, turned, order.symm⟩

/-- What related items have in common is, in another order, the same. -/
theorem perm_map {f : α → γ} {g : β → γ} (rearranged : Rearranges related items others)
    (same : ∀ item other, related item other → f item = g other) :
    (items.map f).Perm (others.map g) := by
  obtain ⟨middle, order, each⟩ := rearranged
  have equal : middle.map f = others.map g := by
    clear order
    induction each with
    | nil => rfl
    | cons head _ ih => rw [List.map_cons, List.map_cons, same _ _ head, ih]
  exact equal ▸ order.map f

/-- What related items list in other orders is, in another order, the same. -/
theorem perm_flatMap {f : α → List γ} {g : β → List γ} (rearranged : Rearranges related items others)
    (same : ∀ item other, related item other → (f item).Perm (g other)) :
    (items.flatMap f).Perm (others.flatMap g) := by
  obtain ⟨middle, order, each⟩ := rearranged
  refine (order.flatMap_right f).trans ?_
  clear order
  induction each with
  | nil => exact .nil
  | cons head _ ih => exact (same _ _ head).append ih

/-- Related items are chosen together. -/
theorem filter {p : α → Bool} {q : β → Bool} (rearranged : Rearranges related items others)
    (same : ∀ item other, related item other → p item = q other) :
    Rearranges related (items.filter p) (others.filter q) := by
  obtain ⟨middle, order, each⟩ := rearranged
  refine ⟨middle.filter p, order.filter p, ?_⟩
  clear order
  induction each with
  | nil => exact .nil
  | cons head _ ih =>
    rw [List.filter_cons, List.filter_cons, same _ _ head]
    split
    · exact .cons head ih
    · exact ih

/-- If there are no items, there are no others. -/
theorem isEmpty_eq (rearranged : Rearranges related items others) :
    items.isEmpty = others.isEmpty := by
  obtain ⟨middle, order, each⟩ := rearranged
  rw [order.isEmpty_eq]
  cases each <;> rfl

end Rearranges

/-- The triggers of a flag are put in another order. -/
inductive ParamForm.Rearranged : ParamForm → ParamForm → Prop where
  /-- A flag lists the same triggers. -/
  | flag {triggers others : List String} {takesValue : Bool} (order : triggers.Perm others) :
      Rearranged (.flag triggers takesValue) (.flag others takesValue)
  /-- A positional argument has none. -/
  | positional : Rearranged .positional .positional

/-- Rearranging triggers goes both ways. -/
theorem ParamForm.Rearranged.symm {form other : ParamForm} (rearranged : form.Rearranged other) :
    other.Rearranged form := by
  cases rearranged with
  | flag order => exact .flag order.symm
  | positional => exact .positional

/-- Triggers may be left as they are. -/
theorem ParamForm.Rearranged.refl (form : ParamForm) : form.Rearranged form := by
  cases form with
  | flag triggers => exact .flag (.refl triggers)
  | positional => exact .positional

/-- Parameters that differ at most in the order of their triggers. -/
inductive Param.Rearranged (param : Param) : Param → Prop where
  /-- All but the form is the same. -/
  | of {form : ParamForm} (order : param.form.Rearranged form) : Rearranged param { param with form }

/-- Command trees that differ at most in the order of the parameters and of the subcommands of each
command, and in the order of the triggers of each flag. -/
inductive Command.Rearranged : Command → Command → Prop where
  /-- All but what the command declares is the same. -/
  | of {name : String} {description : Option String} {params others : List Param}
      {subcommands middle inner : List Command} {required : Bool} {arity : Arity} {multiple : Bool}
      (declared : Rearranges Param.Rearranged params others) (order : subcommands.Perm middle)
      (each : List.Forall₂ Rearranged middle inner) :
      Rearranged ⟨name, description, params, subcommands, required, arity, multiple⟩
        ⟨name, description, others, inner, required, arity, multiple⟩

namespace Param.Rearranged

variable {param other : Param}

/-- A parameter may be left as it is. -/
theorem refl (param : Param) : param.Rearranged param := .of (.refl param.form)

/-- Rearranging the triggers of a parameter goes both ways. -/
theorem symm (rearranged : param.Rearranged other) : other.Rearranged param := by
  obtain @⟨form, order⟩ := rearranged
  have back : Rearranged { param with form } { param with form := param.form } := .of order.symm
  exact back

/-- The forms are rearranged. -/
theorem form (rearranged : param.Rearranged other) : param.form.Rearranged other.form := by
  obtain ⟨order⟩ := rearranged
  exact order

/-- The triggers are the same in another order. -/
theorem triggers (rearranged : param.Rearranged other) : param.triggers.Perm other.triggers := by
  have order := rearranged.form
  unfold Param.triggers
  generalize param.form = form, other.form = turned at order
  cases order with
  | flag order => exact order
  | positional => exact .refl _

/-- All but the form is the same. -/
theorem same (rearranged : param.Rearranged other) : other = { param with form := other.form } := by
  obtain ⟨_⟩ := rearranged
  rfl

end Param.Rearranged

namespace Command

variable {command other : Command}

/-- What rearranged commands declare is rearranged, and all else is the same. -/
structure Rearranged.Declares (command other : Command) : Prop where
  /-- The parameters are rearranged. -/
  params : Rearranges Param.Rearranged command.params other.params
  /-- So are the subcommands. -/
  subcommands : Rearranges Rearranged command.subcommands other.subcommands
  /-- The other members are the same. -/
  same : other = { command with params := other.params, subcommands := other.subcommands }

/-- Rearranged commands. -/
theorem rearranged_iff : command.Rearranged other ↔ Rearranged.Declares command other := by
  constructor
  · rintro ⟨declared, order, each⟩
    exact ⟨declared, ⟨_, order, each⟩, rfl⟩
  · intro ⟨declared, ⟨_, order, each⟩, same⟩
    rw [same]
    cases command
    exact .of declared order each

namespace Rearranged

/-- Rearranging goes both ways. -/
theorem symm (rearranged : command.Rearranged other) : other.Rearranged command := by
  induction command using induction_below generalizing other with
  | step command inner =>
    obtain ⟨params, subcommands, same⟩ := rearranged_iff.1 rearranged
    refine rearranged_iff.2 ⟨params.flip fun _ _ _ => .symm,
      subcommands.flip fun below member _ => inner below member, ?_⟩
    rw [same]
    cases command
    rfl

/-- The commands have the same name. -/
theorem name (rearranged : command.Rearranged other) : command.name = other.name := by
  rw [(rearranged_iff.1 rearranged).same]

/-- The names of the subcommands are the same in another order. -/
theorem names_subcommands (rearranged : command.Rearranged other) :
    (command.subcommands.map Command.name).Perm (other.subcommands.map Command.name) :=
  (rearranged_iff.1 rearranged).subcommands.perm_map fun _ _ => name

/-- The names of the parameters are the same in another order. -/
theorem names_params (rearranged : command.Rearranged other) :
    (command.params.map Param.name).Perm (other.params.map Param.name) :=
  (rearranged_iff.1 rearranged).params.perm_map fun param other same => by rw [same.same]

/-- A parameter may be declared in another place and with its triggers in another order. -/
theorem mayDeclare (rearranged : command.Rearranged other) {param twin : Param}
    (same : param.Rearranged twin) (may : command.MayDeclare param) : other.MayDeclare twin := by
  have names := rearranged.names_subcommands
  have triggers := same.triggers
  refine ⟨?_, ?_, ?_, ?_, ?_, ?_⟩
  · rw [same.same]
    exact may.named
  · rw [same.same]
    exact may.counted
  · intro triggers takesValue form
    have order := form ▸ same.form
    cases own : param.form with
    | positional =>
      rw [own] at order
      cases order
    | flag =>
      rw [own] at order
      cases order with
      | flag order => exact fun empty => may.triggered _ _ own (empty ▸ order).eq_nil
  · exact fun trigger member => may.formed trigger (triggers.mem_iff.2 member)
  · exact fun trigger member => names.mem_iff.not.1 (may.apart trigger (triggers.mem_iff.2 member))
  · rw [same.same]
    exact may.defaulted

/-- A rearranged command is well formed. -/
theorem isWellFormed (rearranged : command.Rearranged other) (formed : command.IsWellFormed) :
    other.IsWellFormed := by
  obtain ⟨params, subcommands, same⟩ := rearranged_iff.1 rearranged
  have back := rearranged_iff.1 rearranged.symm
  have names := rearranged.names_params
  refine ⟨?_, ?_, ?_, ?_, names.nodup_iff.1 formed.names,
    rearranged.names_subcommands.nodup_iff.1 formed.commands, ?_, ?_⟩
  · exact rearranged.name ▸ formed.named
  · exact rearranged.name ▸ formed.word
  · rw [same]
    exact formed.counted
  · intro twin member
    obtain ⟨param, declared, order⟩ := back.params.exists_of_mem member
    exact rearranged.mayDeclare order.symm (formed.params param declared)
  · intro inner member
    obtain ⟨twin, declared, order⟩ := back.subcommands.exists_of_mem member
    rw [← order.symm.name]
    exact names.mem_iff.not.1 (formed.fields twin declared)
  · exact (params.perm_flatMap fun _ _ => Param.Rearranged.triggers).nodup_iff.1 formed.triggers

/-- A rearranged command passes the check. -/
theorem check (rearranged : command.Rearranged other) (checked : command.check = .ok ()) :
    other.check = .ok () := by
  induction command using induction_below generalizing other with
  | step command inner =>
    obtain ⟨formed, passes⟩ := check_eq_ok_iff.1 checked
    refine check_eq_ok_iff.2 ⟨rearranged.isWellFormed formed, fun below member => ?_⟩
    have subcommands := (rearranged_iff.1 rearranged.symm).subcommands
    obtain ⟨twin, declared, order⟩ := subcommands.exists_of_mem member
    exact inner twin declared order.symm (passes twin declared)

end Rearranged

end Command

end CommandGrammar
