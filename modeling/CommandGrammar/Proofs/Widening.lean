import Mathlib
import CommandGrammar.Proofs.Modes
import CommandGrammar.Proofs.Options.Triggers
import CommandGrammar.Proofs.Stages

/-!
# Required parameters that are left to the check

The grammar in which required parameters are left to the check is the one in which they count,
with lower minima. It has the same triggers, so that a line is cut into the same tokens, and
accepts all that the other one accepts. So a check of occurrences never turns a line that
parses into one that does not: what it refuses it refuses by the name of a parameter.
-/

namespace CommandGrammar

namespace Model

variable {schema : Command} {model : Model} {line : String} {parse : Parse}

/-- A line with a parse in which required parameters count has one in which they are left to the
check, where the sums of counts fit. -/
theorem exists_parse_deferred (made : ofSchema schema = .ok model) (fits : model.sumsFit = true)
    (parsed : (Table.ofGrammar (model.grammar .counted)).parse line = .ok parse) :
    ∃ other, (Table.ofGrammar (model.grammar .deferred)).parse line = .ok other := by
  unfold Table.parse at parsed ⊢
  rw [triggers_agree made .deferred .counted]
  split at parsed
  · cases parsed
  · next tokens scanned => exact deferred_of_counted made fits parsed

end Model

namespace App

variable {schema : Command} {app : App} {line : String} {parse : Parse}

/-- Where occurrences are not checked, a line that does not fail in parsing has a parse. -/
theorem exists_parse_of_unchecked (skips : app.options.validate = false)
    (parsed : ∀ fault, app.resolveLine line ≠ .error (.parse fault)) :
    ∃ parse, app.strict.parse line = .ok parse := by
  cases result : app.strict.parse line with
  | ok parse => exact ⟨parse, rfl⟩
  | error fault =>
    have failed : app.resolveLine line = .error (.parse fault) := by
      simp [resolveLine, parseLine, skips, result, Except.mapError, bind, Except.bind]
    exact absurd failed (parsed fault)

/-- Where occurrences are checked, a line with a parse does not fail in parsing. -/
theorem resolveLine_ne_fault (checks : app.options.validate = true)
    (parsed : app.deferred.parse line = .ok parse) (fault : ParseFault) :
    app.resolveLine line ≠ .error (.parse fault) := by
  cases checked : app.model.violation? parse with
  | some violation =>
    rw [resolveLine_of_violation checks parsed checked]
    exact fun same => by cases same
  | none =>
    rw [resolveLine_of_valid checks parsed checked]
    cases app.model.resolve app.options.defaults parse with
    | ok resolved => exact fun same => by cases same
    | error fault => cases fault <;> exact fun same => by cases same

/-- Let no sum of counts wrap around. Both grammars of a schema have repetitions that allow some
number of parts, and are the same but for the minima, which are no greater where required
parameters are left to the check. All tokens that parse where they count parse where they are left
to the check; and a line that does not fail in parsing where no occurrences are checked does not
where they are. -/
theorem deferring_widens {model : Model} (made : Model.ofSchema schema = .ok model)
    (fits : model.sumsFit = true) :
    (∀ mode, (model.grammar mode).isBounded = true) ∧
      (model.grammar .deferred).Lowers (model.grammar .counted) ∧
      (∀ input tokens, (∃ parse, model.parseTokens .counted input tokens = .ok parse) →
        ∃ parse, model.parseTokens .deferred input tokens = .ok parse) ∧
      ∀ defaults others, ∃ unchecked checked,
        ofSchema schema ⟨false, defaults⟩ = .ok unchecked ∧
        ofSchema schema ⟨true, others⟩ = .ok checked ∧
        ∀ line, (∀ fault, unchecked.resolveLine line ≠ .error (.parse fault)) →
          ∀ fault, checked.resolveLine line ≠ .error (.parse fault) := by
  refine ⟨Model.grammar_isBounded fits, Model.grammar_lowers fits, ?_, ?_⟩
  · rintro input tokens ⟨parse, parsed⟩
    exact Model.deferred_of_counted made fits parsed
  · intro defaults others
    have built (options : Options) : ofSchema schema options = .ok ⟨model, model.grammar .counted,
        .ofGrammar (model.grammar .counted), .ofGrammar (model.grammar .deferred), options⟩ := by
      simp [ofSchema, made, bind, Except.bind, pure, Except.pure]
    refine ⟨_, _, built _, built _, fun line parsed => ?_⟩
    obtain ⟨parse, strict⟩ := exists_parse_of_unchecked rfl parsed
    obtain ⟨other, deferred⟩ := Model.exists_parse_deferred made fits strict
    exact resolveLine_ne_fault rfl deferred

/-- A command with a required option, an optional one and one that has a default. -/
def courier : Command :=
  { name := "send"
    params := [{ Param.option ["--to"] with required := true }, Param.option ["--note"],
      { Param.option ["--via"] with default := some (.string "air") }] }

/-- Its app. -/
def courierApp (options : Options) : App :=
  let model : Model := ⟨.ofCommand 0 none courier, Node.below 0 courier⟩
  ⟨model, model.grammar .counted, .ofGrammar (model.grammar .counted),
    .ofGrammar (model.grammar .deferred), options⟩

/-- A line with the required option and the optional one parses whether occurrences are checked or
not. -/
theorem courier_widens : Model.ofSchema courier = .ok (courierApp {}).model ∧
    (∀ fault, (courierApp ⟨false, .filled⟩).resolveLine "send --to=me --note x" ≠
      .error (.parse fault)) ∧
    ∀ fault, (courierApp ⟨true, .omitted⟩).resolveLine "send --to=me --note x" ≠
      .error (.parse fault) := by
  have made : Model.ofSchema courier = .ok (courierApp {}).model := rfl
  obtain ⟨resolved, read⟩ : ∃ resolved,
      (courierApp ⟨false, .filled⟩).resolveLine "send --to=me --note x" = .ok resolved :=
    exists_of_isOk (by decide +kernel)
  have parses : ∀ fault, (courierApp ⟨false, .filled⟩).resolveLine "send --to=me --note x" ≠
      .error (.parse fault) := by
    intro fault failed
    rw [read] at failed
    cases failed
  have fits : (courierApp {}).model.sumsFit = true := by decide +kernel
  obtain ⟨_, _, unchecked, checked, widens⟩ :=
    (deferring_widens made fits).2.2.2 .filled .omitted
  have first : ofSchema courier ⟨false, .filled⟩ = .ok (courierApp ⟨false, .filled⟩) := rfl
  have second : ofSchema courier ⟨true, .omitted⟩ = .ok (courierApp ⟨true, .omitted⟩) := rfl
  obtain rfl := Except.ok.inj (first.symm.trans unchecked)
  obtain rfl := Except.ok.inj (second.symm.trans checked)
  exact ⟨made, parses, widens _ parses⟩

end App

end CommandGrammar
