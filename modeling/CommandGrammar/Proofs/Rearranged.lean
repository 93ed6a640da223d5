import Mathlib
import CommandGrammar.Proofs.Model.Lines
import CommandGrammar.Proofs.Modes
import CommandGrammar.Proofs.Recognition
import CommandGrammar.Proofs.Schema.Rearranged

/-!
# The order of declarations

The order in which a schema declares things settles the numbers of nodes and rules, and which of
several readings of a line is picked, but not which lines parse. What a command tree lets one write
is said by its members as they stand, with their order left out: the items of an invocation come in
any order, and the numbers of items that are allowed are sums over the parameters.
-/

namespace CommandGrammar

variable {mode : RequiredParams} {tokens : List String}

namespace Param.Rearranged

variable {param other : Param}

/-- The count that the occurrences must have is the same. -/
theorem fixedCount? (rearranged : param.Rearranged other) :
    param.fixedCount? = other.fixedCount? := by
  rw [rearranged.same]
  rfl

/-- Both count towards the least number of items, or neither does. -/
theorem asks (rearranged : param.Rearranged other) : mode.asks param = mode.asks other := by
  rw [rearranged.same]
  rfl

/-- The occurrences are the same. -/
theorem spells (rearranged : param.Rearranged other) (spelled : param.Spells tokens) :
    other.Spells tokens := by
  have order := rearranged.form
  unfold Param.Spells at spelled ⊢
  generalize param.form = form, other.form = turned at order spelled
  cases order with
  | positional => exact spelled
  | @flag triggers others takesValue order =>
    cases takesValue with
    | false | true =>
      obtain ⟨trigger, member, same⟩ := spelled
      exact ⟨trigger, order.mem_iff.1 member, same⟩

end Param.Rearranged

namespace Command.Rearranged

variable {command other : Command}

/-- Rearranged commands ask for the same number of items. -/
theorem asked (rearranged : command.Rearranged other) : command.asked mode = other.asked mode := by
  obtain ⟨params, _, _⟩ := rearranged_iff.1 rearranged
  have kept (param other : Param) (same : param.Rearranged other) :
      mode.asks param = mode.asks other := same.asks
  exact Model.wrappingSum_perm ((params.filter kept).perm_map fun _ _ same =>
    congrArg (Option.getD · 1) same.fixedCount?)

/-- Rearranged commands offer the same number of items. -/
theorem offered (rearranged : command.Rearranged other) : command.offered = other.offered := by
  obtain ⟨params, _, _⟩ := rearranged_iff.1 rearranged
  exact Model.wrappingSum_perm (params.perm_map fun _ _ same =>
    congrArg (Option.getD · 0) same.fixedCount?)

/-- Rearranged commands allow the same numbers of items. -/
theorem allowsItems (rearranged : command.Rearranged other) {count : Nat} :
    command.AllowsItems mode count ↔ other.AllowsItems mode count := by
  obtain ⟨params, subcommands, _⟩ := rearranged_iff.1 rearranged
  have counts := params.perm_map fun _ _ => Param.Rearranged.fixedCount?
  have fixed : (∀ param ∈ command.params, param.fixedCount?.isSome = true) ↔
      ∀ param ∈ other.params, param.fixedCount?.isSome = true := by
    rw [← List.forall_mem_map (f := Param.fixedCount?) (P := fun count => count.isSome = true),
      ← List.forall_mem_map (f := Param.fixedCount?) (P := fun count => count.isSome = true)]
    exact forall_congr' fun count => by rw [counts.mem_iff]
  rw [AllowsItems, AllowsItems, subcommands.isEmpty_eq, fixed, rearranged.asked, rearranged.offered]

/-- Rearranged commands have the same invocations. -/
theorem spells (rearranged : command.Rearranged other) (spelled : command.Spells mode tokens) :
    other.Spells mode tokens := by
  induction command using induction_below generalizing other tokens with
  | step command inner =>
    obtain ⟨params, subcommands, _⟩ := rearranged_iff.1 rearranged
    obtain ⟨parts, rfl, count, each⟩ := spells_iff.1 spelled
    refine spells_iff.2 ⟨parts, by rw [rearranged.name], rearranged.allowsItems.1 count,
      fun part member => ?_⟩
    rcases each part member with ⟨param, declared, own⟩ | ⟨below, declared, invoked⟩
    · obtain ⟨twin, found, order⟩ := params.exists_of_mem declared
      exact .inl ⟨twin, found, order.spells own⟩
    · obtain ⟨twin, found, order⟩ := subcommands.exists_of_mem declared
      exact .inr ⟨twin, found, inner below declared order invoked⟩

end Command.Rearranged

namespace Model

/-- Tokens parse if they are an invocation of the schema, and only then. -/
theorem parseTokens_iff_spells {schema : Command} {model : Model}
    (made : ofSchema schema = .ok model) {input : String} :
    (∃ parse, model.parseTokens mode input tokens = .ok parse) ↔ schema.Spells mode tokens := by
  rw [← accepts_iff_spells made]
  exact parses_iff_accepts made

/-- A schema stays valid when its declarations are put in another order, at any of its commands, and
in both modes the same tokens parse as before. -/
theorem parses_rearranged {schema other : Command} (valid : schema.faults = [])
    (rearranged : schema.Rearranged other) :
    other.faults = [] ∧ ∃ model turned, ofSchema schema = .ok model ∧ ofSchema other = .ok turned ∧
      ∀ (mode : RequiredParams) (input : String) (tokens : List String),
        (∃ parse, model.parseTokens mode input tokens = .ok parse) ↔
          ∃ parse, turned.parseTokens mode input tokens = .ok parse := by
  obtain ⟨model, made⟩ := exists_model valid
  have checked := rearranged.check (ofSchema_eq_ok made).1
  have passes : other.faults = [] := by rw [Command.faults, checked]
  obtain ⟨turned, remade⟩ := exists_model passes
  refine ⟨passes, model, turned, made, remade, fun mode input tokens => ?_⟩
  rw [parseTokens_iff_spells made, parseTokens_iff_spells remade]
  exact ⟨rearranged.spells, rearranged.symm.spells⟩

/-- The harbour with its two subcommands, the parameters of the first one and the triggers of its
switch in the opposite order. -/
def turnedHarbour : Command :=
  { name := "harbour"
    params := [{ Param.switch ["-q", "--quiet"] with form := .flag ["--quiet", "-q"] false }]
    subcommands := [
      { name := "leave", multiple := true },
      { name := "dock"
        params := [{ Param.option ["--port"] with
          kind := .integer, default := some (.string "5432") }, .argument "ship"] }] }

/-- The harbour and the turned one are valid, and the same lines parse. -/
theorem harbour_parses_turned : harbour.Rearranged turnedHarbour ∧ turnedHarbour.faults = [] ∧
    ∃ model turned, ofSchema harbour = .ok model ∧ ofSchema turnedHarbour = .ok turned ∧
      ∀ (mode : RequiredParams) (input : String) (tokens : List String),
        (∃ parse, model.parseTokens mode input tokens = .ok parse) ↔
          ∃ parse, turned.parseTokens mode input tokens = .ok parse := by
  have quiet : Rearranges Param.Rearranged harbour.params turnedHarbour.params :=
    ⟨_, .refl _, .cons (.of (.flag (.swap _ _ _))) .nil⟩
  have rearranged : harbour.Rearranged turnedHarbour := .of quiet (.swap _ _ _)
    (.cons (.of ⟨[], .nil, .nil⟩ .nil .nil)
      (.cons (.of ⟨_, .swap _ _ _, .cons (.refl _) (.cons (.refl _) .nil)⟩ .nil .nil) .nil))
  exact ⟨rearranged, parses_rearranged (by decide +kernel) rearranged⟩

end Model

end CommandGrammar
