import Mathlib
import CommandGrammar.App
import CommandGrammar.Proofs.Line.Tokens
import CommandGrammar.Proofs.Schema.Check

/-!
# Stages of an app

An app that checks occurrences takes a line through three stages: it is parsed by the grammar in
which required parameters are left to the check, the occurrences are checked, and the
texts are decoded. The first stage that fails decides the error, and a line is resolved exactly if
all of them pass.
-/

namespace CommandGrammar

/-- A computation that succeeds has a result. -/
theorem exists_of_isOk {ε α : Type} {result : Except ε α} (done : result.isOk = true) :
    ∃ value, result = .ok value := by
  cases result with
  | error fault => cases done
  | ok value => exact ⟨value, rfl⟩

/-- A line is parsed as the texts of its tokens. -/
theorem Table.parse_eq {table : Table} {line : String} {texts : List String}
    (scanned : ∃ tokens, Line.tokenizeWith table.triggers.contains line = .ok tokens ∧
      tokens.map Line.Token.text = texts) : table.parse line = table.parseTokens line texts := by
  obtain ⟨tokens, found, same⟩ := scanned
  rw [Table.parse, found]
  simp only [same]

namespace App

variable {schema : Command} {app : App} {line : String} {parse : Parse}

/-- The app of a schema has its model and the tables of its grammars. -/
theorem ofSchema_eq_ok {options : Options} (made : ofSchema schema options = .ok app) :
    Model.ofSchema schema = .ok app.model ∧
      app.deferred = .ofGrammar (app.model.grammar .deferred) ∧ app.options = options := by
  obtain ⟨model, modelled, built⟩ := bind_eq_ok_iff.1 made
  cases built
  exact ⟨modelled, rfl, rfl⟩

/-- A line without parse fails with the fault. -/
theorem resolveLine_of_fault (checks : app.options.validate = true) {fault : ParseFault}
    (parsed : app.deferred.parse line = .error fault) :
    app.resolveLine line = .error (.parse fault) := by
  simp [resolveLine, parseLine, checks, parsed, Except.mapError, bind, Except.bind]

/-- A line whose parse breaks a rule fails with the violation. -/
theorem resolveLine_of_violation (checks : app.options.validate = true)
    (parsed : app.deferred.parse line = .ok parse) {violation : Violation}
    (broken : app.model.violation? parse = some violation) :
    app.resolveLine line = .error (.occurrences violation) := by
  simp [resolveLine, parseLine, checks, parsed, broken, Except.mapError, bind, Except.bind,
    throw, throwThe, MonadExceptOf.throw]

/-- A line whose parse breaks no rule is resolved as its parse is. -/
theorem resolveLine_of_valid (checks : app.options.validate = true)
    (parsed : app.deferred.parse line = .ok parse) (valid : app.model.violation? parse = none) :
    app.resolveLine line =
      (app.model.resolve app.options.defaults parse).mapError .ofResolve := by
  simp [resolveLine, parseLine, checks, parsed, valid, Except.mapError, bind, Except.bind,
    pure, Except.pure]

/-- Where occurrences are checked, the parse of a line is the one with required parameters left to
the check, and it breaks no rule. -/
theorem parseLine_eq_ok_iff (checks : app.options.validate = true) :
    app.parseLine line = .ok parse ↔
      app.deferred.parse line = .ok parse ∧ app.model.violation? parse = none := by
  unfold parseLine
  rw [if_pos checks, bind_eq_ok_iff]
  simp only [mapError_eq_ok_iff]
  constructor
  · rintro ⟨found, parsed, checked⟩
    cases valid : app.model.violation? found with
    | some violation =>
      rw [valid] at checked
      cases checked
    | none =>
      rw [valid] at checked
      cases checked
      exact ⟨parsed, valid⟩
  · rintro ⟨parsed, valid⟩
    refine ⟨parse, parsed, ?_⟩
    rw [valid]
    rfl

/-- A line that is resolved has a parse that breaks no rule. -/
theorem parse_of_resolveLine (checks : app.options.validate = true) {resolved : Resolved}
    (accepted : app.resolveLine line = .ok resolved) :
    ∃ parse, app.deferred.parse line = .ok parse ∧ app.model.violation? parse = none := by
  cases parsed : app.deferred.parse line with
  | error fault =>
    rw [resolveLine_of_fault checks parsed] at accepted
    cases accepted
  | ok parse =>
    cases checked : app.model.violation? parse with
    | none => exact ⟨parse, rfl, checked⟩
    | some violation =>
      rw [resolveLine_of_violation checks parsed checked] at accepted
      cases accepted

end App

end CommandGrammar
