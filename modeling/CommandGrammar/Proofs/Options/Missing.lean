import Mathlib
import CommandGrammar.App
import CommandGrammar.Proofs.Options.Places
import CommandGrammar.Proofs.Options.Reading
import CommandGrammar.Proofs.Stages

/-!
# Missing options

A required option that is missing is left to the check of occurrences, which names it. The line
reaches the check only if it has a parse, and the least number of options counts those that are
optional and have no default. An accepted line from which a required option is taken away is
thus reported by the check if as many options are left as are counted, and is a line without
parse if fewer are.
-/

namespace CommandGrammar

namespace Command

variable {schema : Command} {chunks : List Chunk}

/-- The arguments of a line: the name of the command and the tokens of its options. -/
def arguments (schema : Command) (chunks : List Chunk) : List String :=
  schema.name :: chunks.flatMap Chunk.tokens

/-- How many of the options begin with a trigger of the parameter. -/
def countOf (schema : Command) (chunks : List Chunk) (place : Fin schema.params.length) : Nat :=
  chunks.countP (·.trigger ∈ schema.triggersAt place)

/-- The options without those of the parameter. -/
def without (schema : Command) (place : Fin schema.params.length) (chunks : List Chunk) :
    List Chunk :=
  chunks.filter (·.trigger ∉ schema.triggersAt place)

/-- Of a parameter that is taken away none is left. -/
theorem countOf_without_self (place : Fin schema.params.length) :
    schema.countOf (schema.without place chunks) place = 0 := by
  rw [countOf, List.countP_eq_zero]
  intro chunk member
  have kept := (List.mem_filter.1 member).2
  simpa using kept

/-- Of the other parameters all is left. -/
theorem countOf_without_of_ne (declares : schema.Declares) {place other : Fin schema.params.length}
    (differs : other ≠ place) :
    schema.countOf (schema.without place chunks) other = schema.countOf chunks other := by
  rw [countOf, countOf, without, List.countP_filter]
  refine List.countP_congr fun chunk _ => ?_
  have apart : chunk.trigger ∈ schema.triggersAt other →
      chunk.trigger ∉ schema.triggersAt place := fun here there =>
    differs (declares.place_unique here there)
  simpa using apart

/-- Without some of the options the triggers are still known. -/
theorem Knows.without (knows : schema.Knows chunks) (place : Fin schema.params.length) :
    schema.Knows (schema.without place chunks) :=
  fun chunk member => knows chunk (List.mem_filter.1 member).1

/-- Without some of the options the arguments are among those of the line. -/
theorem arguments_without_subset (place : Fin schema.params.length) :
    schema.arguments (schema.without place chunks) ⊆ schema.arguments chunks := by
  intro argument member
  rcases List.mem_cons.1 member with name | later
  · exact List.mem_cons.2 (.inl name)
  · obtain ⟨chunk, kept, inside⟩ := List.mem_flatMap.1 later
    have listed := (List.mem_filter.1 kept).1
    exact List.mem_cons_of_mem _ (List.mem_flatMap.2 ⟨chunk, listed, inside⟩)

end Command

namespace Model

variable {schema : Command} {model : Model} {branches : List Tree} {chunks : List Chunk}

/-- The branches of options are at places whose parameters have their triggers. -/
theorem AreOptions.places (are : AreOptions schema branches chunks) :
    ∃ places, schema.AtPlaces branches places ∧
      List.Forall₂ (fun chunk place => chunk.trigger ∈ schema.triggersAt place) chunks places := by
  induction are with
  | nil => exact ⟨[], .nil, .nil⟩
  | cons isOption _ ih =>
    obtain ⟨place, option⟩ := isOption
    obtain ⟨children, same, _⟩ := option.branch
    obtain ⟨places, each, known⟩ := ih
    exact ⟨place :: places, .cons ⟨children, same⟩ each, .cons option.known known⟩

/-- A parameter has as many places as options begin with one of its triggers. -/
theorem count_places (declares : schema.Declares) {places : List (Fin schema.params.length)}
    (known : List.Forall₂ (fun chunk place => chunk.trigger ∈ schema.triggersAt place) chunks
      places) (place : Fin schema.params.length) :
    places.count place = schema.countOf chunks place := by
  induction known with
  | nil => rfl
  | @cons chunk other later _ here _ ih =>
    have same : other = place ↔ chunk.trigger ∈ schema.triggersAt place :=
      ⟨fun same => same ▸ here, fun there => declares.place_unique here there⟩
    have step : schema.countOf (chunk :: later) place = schema.countOf later place +
        if chunk.trigger ∈ schema.triggersAt place then 1 else 0 := by
      simp [Command.countOf, List.countP_cons]
    rw [step, List.count_cons, ih]
    simp [same]

end Model

namespace App

variable {schema : Command} {app : App} {chunks : List Chunk}

/-- The root asks for no more options than a number, where it asks for some. -/
def Suffices (app : App) (count : Nat) : Prop :=
  ∀ most, app.model.maxParams app.model.root = some most →
    app.model.minParams .deferred app.model.root ≤ count

/-- Arguments that are not cut are parsed as tokens. -/
theorem parse_whole {arguments : List String}
    (whole : ∀ argument ∈ arguments, Line.IsWhole app.deferred.triggers.contains argument) :
    app.deferred.parse (Line.joinArguments arguments) =
      app.deferred.parseTokens (Line.joinArguments arguments) arguments :=
  Table.parse_eq (Line.tokenizeWith_whole whole)

/-- What an accepted line of options tells: the bounds allow their number, and every parameter
occurs as often as it may. -/
theorem counts_of_accepted (made : ofSchema schema {} = .ok app) (options : schema.OfOptions)
    (knows : schema.Knows chunks) (whole : ∀ argument ∈ schema.arguments chunks,
      Line.IsWhole app.deferred.triggers.contains argument)
    (accepted : ∃ resolved, app.resolveArguments (schema.arguments chunks) = .ok resolved) :
    Within (app.model.readBounds .deferred app.model.root) chunks.length ∧
      ∀ place, (schema.optionNode place).allows (schema.countOf chunks place) = true := by
  obtain ⟨modelled, deferred, configured⟩ := ofSchema_eq_ok made
  have declares := Command.declares_of_check (Model.ofSchema_eq_ok modelled).1
  have checks : app.options.validate = true := by rw [configured]
  obtain ⟨resolved, found⟩ := accepted
  obtain ⟨parse, parsed, valid⟩ := parse_of_resolveLine checks found
  rw [parse_whole whole, deferred] at parsed
  obtain ⟨leaf, branches, rfl, are, within⟩ := Model.parse_options modelled options knows parsed
  obtain ⟨places, each, known⟩ := are.places
  refine ⟨within, fun place => ?_⟩
  rw [← Model.count_places declares known place]
  exact (Model.violation?_eq_none_iff modelled options.alone each _ leaf).1 valid place

/-- Where the count of one parameter alone is not allowed, the check names it. -/
theorem resolveArguments_of_only (made : ofSchema schema {} = .ok app) (options : schema.OfOptions)
    (knows : schema.Knows chunks) (whole : ∀ argument ∈ schema.arguments chunks,
      Line.IsWhole app.deferred.triggers.contains argument)
    (within : Within (app.model.readBounds .deferred app.model.root) chunks.length)
    {place : Fin schema.params.length}
    (broken : (schema.optionNode place).allows (schema.countOf chunks place) = false)
    (others : ∀ other, other ≠ place →
      (schema.optionNode other).allows (schema.countOf chunks other) = true) :
    app.resolveArguments (schema.arguments chunks) = .error (.occurrences
      ⟨schema.optionId place, (schema.optionNode place).name, schema.countOf chunks place⟩) := by
  obtain ⟨modelled, deferred, configured⟩ := ofSchema_eq_ok made
  have declares := Command.declares_of_check (Model.ofSchema_eq_ok modelled).1
  obtain ⟨leaf, branches, parsed, are⟩ := Model.exists_parse_options modelled options knows
    within (Line.joinArguments (schema.arguments chunks))
  obtain ⟨places, each, known⟩ := are.places
  have counts := Model.count_places declares known
  have violated := Model.violation?_of_only modelled options.alone each
    (by rw [counts place]; exact broken)
    (fun other differs => by rw [counts other]; exact others other differs)
    (Line.joinArguments (schema.arguments chunks)) leaf
  rw [counts place] at violated
  have same := parse_whole whole
  rw [deferred] at same
  exact resolveLine_of_violation (by rw [configured]) (by rw [deferred, same]; exact parsed)
    violated

/-- Options that are fewer than the root asks for have no parse. -/
theorem resolveArguments_of_few (made : ofSchema schema {} = .ok app) (options : schema.OfOptions)
    (knows : schema.Knows chunks) (whole : ∀ argument ∈ schema.arguments chunks,
      Line.IsWhole app.deferred.triggers.contains argument)
    (lacking : ¬ app.Suffices chunks.length) :
    ∃ fault, app.resolveArguments (schema.arguments chunks) = .error (.parse fault) := by
  obtain ⟨modelled, deferred, configured⟩ := ofSchema_eq_ok made
  cases parsed : app.deferred.parse (Line.joinArguments (schema.arguments chunks)) with
  | error fault => exact ⟨fault, resolveLine_of_fault (by rw [configured]) parsed⟩
  | ok parse =>
    rw [parse_whole whole, deferred] at parsed
    obtain ⟨_, _, _, _, within⟩ := Model.parse_options modelled options knows parsed
    have bounds := Model.within_readBounds_iff.1 within
    exact absurd (fun most known => (bounds most known).1) lacking

/-- Take the options of a required parameter away from an accepted line: if those that are left are
as many as are asked for, the check names the parameter as missing; if not, the line has no
parse. -/
theorem resolveArguments_without_required (made : ofSchema schema {} = .ok app)
    (options : schema.OfOptions) (knows : schema.Knows chunks)
    (whole : ∀ argument ∈ schema.arguments chunks,
      Line.IsWhole app.deferred.triggers.contains argument)
    (accepted : ∃ resolved, app.resolveArguments (schema.arguments chunks) = .ok resolved)
    {place : Fin schema.params.length} (required : (schema.optionNode place).required = true) :
    (app.Suffices (schema.without place chunks).length →
        app.resolveArguments (schema.arguments (schema.without place chunks)) =
          .error (.occurrences ⟨schema.optionId place, (schema.optionNode place).name, 0⟩)) ∧
      (¬ app.Suffices (schema.without place chunks).length →
        ∃ fault, app.resolveArguments (schema.arguments (schema.without place chunks)) =
          .error (.parse fault)) := by
  have modelled := (ofSchema_eq_ok made).1
  have declares := Command.declares_of_check (Model.ofSchema_eq_ok modelled).1
  obtain ⟨within, allowed⟩ := counts_of_accepted made options knows whole accepted
  have wholeRest : ∀ argument ∈ schema.arguments (schema.without place chunks),
      Line.IsWhole app.deferred.triggers.contains argument := fun argument member =>
    whole argument (Command.arguments_without_subset place member)
  have fewer : (schema.without place chunks).length ≤ chunks.length := List.length_filter_le _ _
  have none_left : schema.countOf (schema.without place chunks) place = 0 :=
    Command.countOf_without_self place
  refine ⟨fun enough => ?_, resolveArguments_of_few made options (knows.without place) wholeRest⟩
  have missing : (schema.optionNode place).allows
      (schema.countOf (schema.without place chunks) place) = false := by
    rw [none_left]
    simp [Node.allows, required]
  have others : ∀ other, other ≠ place → (schema.optionNode other).allows
      (schema.countOf (schema.without place chunks) other) = true := by
    intro other differs
    rw [Command.countOf_without_of_ne declares differs]
    exact allowed other
  have remaining : Within (app.model.readBounds .deferred app.model.root)
      (schema.without place chunks).length := by
    refine Model.within_readBounds_iff.2 fun most known => ⟨enough most known, ?_⟩
    exact Nat.le_trans fewer (Model.within_readBounds_iff.1 within most known).2
  have failed := resolveArguments_of_only made options (knows.without place) wholeRest remaining
    missing others
  rwa [none_left] at failed

/-- A command with a required option and an optional one without default. -/
def sender : Command :=
  { name := "send"
    params := [{ Param.option ["--to"] with required := true }, Param.option ["--note"]] }

/-- Its app. -/
def senderApp : App :=
  let model : Model := ⟨.ofCommand 0 none sender, Node.below 0 sender⟩
  ⟨model, model.grammar .counted, .ofGrammar (model.grammar .counted),
    .ofGrammar (model.grammar .deferred), {}⟩

/-- Without the required option a line that has the optional one is reported by the check. -/
theorem sender_reports_missing : ofSchema sender {} = .ok senderApp ∧
    senderApp.resolveArguments ["send", "--note", "x"] = .error (.occurrences ⟨1, "to", 0⟩) := by
  have made : ofSchema sender {} = .ok senderApp := rfl
  have options : sender.OfOptions := by
    refine ⟨rfl, ?_⟩
    simp [sender, Param.option]
  let chunks : List Chunk := [⟨"--to", false, "me"⟩, ⟨"--note", false, "x"⟩]
  have knows : sender.Knows chunks := by
    have first : "--to" ∈ sender.triggersAt (0 : Fin 2) := by decide
    have second : "--note" ∈ sender.triggersAt (1 : Fin 2) := by decide
    exact List.forall_mem_cons.2 ⟨⟨_, first⟩, List.forall_mem_singleton.2 ⟨_, second⟩⟩
  have whole : ∀ argument ∈ sender.arguments chunks,
      Line.IsWhole senderApp.deferred.triggers.contains argument := by
    decide +kernel
  have accepted : ∃ resolved, senderApp.resolveArguments (sender.arguments chunks) =
      .ok resolved :=
    exists_of_isOk (by decide +kernel)
  have required : (sender.optionNode (0 : Fin 2)).required = true := rfl
  have enough : senderApp.Suffices (sender.without (0 : Fin 2) chunks).length := by
    have least : senderApp.model.minParams .deferred senderApp.model.root ≤ 1 := by decide +kernel
    exact fun _ _ => least
  exact ⟨made,
    (resolveArguments_without_required made options knows whole accepted required).1 enough⟩

/-- If the optional one is left out as well, the line has no parse, although the line with the
required one is accepted. -/
theorem sender_hides_missing : ofSchema sender {} = .ok senderApp ∧
    (∃ resolved, senderApp.resolveArguments ["send", "--to", "me"] = .ok resolved) ∧
      ∃ fault, senderApp.resolveArguments ["send"] = .error (.parse fault) := by
  refine ⟨rfl, exists_of_isOk (by decide +kernel), ?_⟩
  have failed : (senderApp.deferred.parse (Line.joinArguments ["send"])).isOk = false := by
    decide +kernel
  cases parsed : senderApp.deferred.parse (Line.joinArguments ["send"]) with
  | ok parse =>
    rw [parsed] at failed
    cases failed
  | error fault => exact ⟨fault, resolveLine_of_fault rfl parsed⟩

end App

end CommandGrammar
