import Mathlib
import CommandGrammar.Schema.Check

/-!
# What the check of a schema finds

A command passes its check exactly if it is well formed and its subcommands pass theirs. The check
carries along what the parameters so far have taken; one step adds to it what the next
parameter takes, and refuses what is taken already. For each step one lemma says when it
succeeds and what it adds.
-/

namespace CommandGrammar

/-- A computation succeeds after another one exactly if both do. -/
theorem bind_eq_ok_iff {ε α β : Type} {first : Except ε α} {next : α → Except ε β} {result : β} :
    (first >>= next) = .ok result ↔ ∃ value, first = .ok value ∧ next value = .ok result := by
  cases first with
  | error fault => simp [bind, Except.bind]
  | ok value => simp [bind, Except.bind]

/-- A computation fails after another one exactly if one of them does. -/
theorem bind_eq_error_iff {ε α β : Type} {first : Except ε α} {next : α → Except ε β} {fault : ε} :
    (first >>= next) = .error fault ↔
      first = .error fault ∨ ∃ value, first = .ok value ∧ next value = .error fault := by
  cases first with
  | error other => simp [bind, Except.bind]
  | ok value => simp [bind, Except.bind]

/-- A computation succeeds with a wrapped fault exactly if it succeeds. -/
theorem mapError_eq_ok_iff {ε ε' α : Type} {first : Except ε α} {wrap : ε → ε'} {result : α} :
    first.mapError wrap = .ok result ↔ first = .ok result := by
  cases first <;> simp [Except.mapError]

/-- A mapped result is the image of a result. -/
theorem map_eq_ok_iff {ε α β : Type} {first : Except ε α} {f : α → β} {result : β} :
    first.map f = .ok result ↔ ∃ value, first = .ok value ∧ f value = result := by
  cases first <;> simp [Except.map]

/-- A computation whose result is dropped succeeds exactly if it does. -/
theorem discard_eq_ok_iff {ε α : Type} {first : Except ε α} :
    discard first = .ok () ↔ ∃ value, first = .ok value := by
  cases first with
  | error fault => simp [discard, Functor.mapConst, Except.map]
  | ok value => simp [discard, Functor.mapConst, Except.map]

/-- A computation that first refuses something succeeds exactly if that is not so and the rest
succeeds. -/
theorem refuse_eq_ok_iff {ε α : Type} {bad : Prop} [Decidable bad] {fault : ε}
    {unreached : Unit → Except ε α} {rest : Except ε α} {result : α} :
    (if bad then (throw fault : Except ε Unit) >>= unreached else rest) = .ok result ↔
      ¬bad ∧ rest = .ok result := by
  by_cases holds : bad
  · simp [holds, bind, Except.bind, throw, throwThe, MonadExceptOf.throw]
  · simp [holds]

/-! ## Triggers -/

/-- The form of a trigger: one or two dashes, a character that is no dash, and more; no
blank and no equals sign. -/
def HasTriggerForm (trigger : String) : Prop :=
  ∃ dashes first rest, trigger.toList = dashes ++ first :: rest ∧
    (dashes = ['-'] ∨ dashes = ['-', '-']) ∧
    (Text.isBlank first = false ∧ first ≠ '=' ∧ first ≠ '-') ∧
    ∀ c ∈ rest, Text.isBlank c = false ∧ c ≠ '='

/-- A character continues a trigger exactly if it is no blank and no equals sign. -/
theorem continuesTrigger_iff {c : Char} :
    continuesTrigger c = true ↔ Text.isBlank c = false ∧ c ≠ '=' := by
  simp [continuesTrigger]

/-- What stands after the dashes of a trigger. -/
theorem beginsTrigger_iff {first : Char} {rest : List Char} :
    (beginsTrigger first && rest.all continuesTrigger) = true ↔
      (Text.isBlank first = false ∧ first ≠ '=' ∧ first ≠ '-') ∧
        ∀ c ∈ rest, Text.isBlank c = false ∧ c ≠ '=' := by
  simp only [beginsTrigger, Bool.and_eq_true, continuesTrigger_iff, List.all_eq_true, bne_iff_ne,
    and_assoc]

/-- A trigger is recognised by its form. -/
theorem isTrigger_iff {trigger : String} :
    isTrigger trigger.toList = true ↔ HasTriggerForm trigger := by
  rw [HasTriggerForm]
  generalize trigger.toList = cs
  constructor
  · intro formed
    unfold isTrigger at formed
    split at formed
    · exact ⟨['-', '-'], _, _, rfl, .inr rfl, beginsTrigger_iff.1 formed⟩
    · exact ⟨['-'], _, _, rfl, .inl rfl, beginsTrigger_iff.1 formed⟩
    · cases formed
  · rintro ⟨dashes, first, rest, rfl, rfl | rfl, formed⟩
    · -- With one dash the other pattern does not apply, since no dash may follow.
      rw [List.singleton_append, isTrigger]
      · exact beginsTrigger_iff.2 formed
      · intro _ _ dash _
        exact formed.1.2.2 dash
    · exact beginsTrigger_iff.2 formed

/-! ## Defaults -/

/-- The texts in a value, at any depth of lists. -/
inductive Value.HasText : Value → String → Prop where
  /-- A text is one itself. -/
  | own (raw : String) : HasText (.string raw) raw
  /-- A list has the texts of its items. -/
  | item {items : List Value} {value : Value} {raw : String} (member : value ∈ items)
      (inside : HasText value raw) : HasText (.list items) raw

namespace Decoder

mutual

/-- A default is decoded exactly if each text in it is. -/
theorem decodeDefault_isOk_iff (decoder : Decoder) (value : Value) :
    (∃ decoded, decoder.decodeDefault value = .ok decoded) ↔
      ∀ raw, value.HasText raw → ∃ decoded, decoder.decode raw = .ok decoded := by
  cases value with
  | string text =>
    rw [decodeDefault]
    constructor
    · rintro decodes raw ⟨⟩
      exact decodes
    · intro each
      exact each text (.own text)
  | list items =>
    simp only [decodeDefault, map_eq_ok_iff]
    constructor
    · rintro ⟨_, decoded, decodes, rfl⟩ raw ⟨⟩
      next value member inside =>
        exact (decodeDefaults_isOk_iff decoder items).1 ⟨decoded, decodes⟩ value member raw inside
    · intro each
      obtain ⟨decoded, decodes⟩ := (decodeDefaults_isOk_iff decoder items).2
        fun value member raw inside => each raw (.item member inside)
      exact ⟨_, decoded, decodes, rfl⟩
  | bool | integer | float | map =>
    constructor
    · rintro - raw ⟨⟩
    · intro _
      exact ⟨_, by rw [decodeDefault]⟩

/-- The items of a default are decoded exactly if each text in them is. -/
theorem decodeDefaults_isOk_iff (decoder : Decoder) (items : List Value) :
    (∃ decoded, decoder.decodeDefaults items = .ok decoded) ↔
      ∀ value ∈ items, ∀ raw, value.HasText raw → ∃ decoded, decoder.decode raw = .ok decoded := by
  cases items with
  | nil => simp [decodeDefaults]
  | cons first rest =>
    rw [List.forall_mem_cons, ← decodeDefault_isOk_iff decoder first,
      ← decodeDefaults_isOk_iff decoder rest]
    simp only [decodeDefaults, bind_eq_ok_iff]
    constructor
    · rintro ⟨_, head, own, tail, others, _⟩
      exact ⟨⟨head, own⟩, tail, others⟩
    · rintro ⟨⟨head, own⟩, tail, others⟩
      exact ⟨_, head, own, tail, others, rfl⟩

end

end Decoder

namespace Command

variable {command : Command}

/-! ## Parameters -/

/-- An accepted trigger has the form of one, is no name of a subcommand beside it, and is new. -/
theorem checkTrigger_eq_ok_iff {seen after : List String} {trigger : String}
    (distinct : seen.Nodup) : command.checkTrigger seen trigger = .ok after ↔
      (HasTriggerForm trigger ∧ trigger ∉ command.subcommands.map Command.name) ∧
        after = trigger :: seen ∧ after.Nodup := by
  have shadows : (command.subcommand? trigger).isSome = true ↔
      trigger ∈ command.subcommands.map Command.name := by
    simp [subcommand?]
  rw [checkTrigger, ← isTrigger_iff, ← shadows]
  split
  · next malformed =>
    rw [Bool.not_eq_true'] at malformed
    simp [malformed]
  · next formed =>
    rw [Bool.not_eq_true', Bool.not_eq_false] at formed
    split
    · next old =>
      rw [List.contains_iff_mem] at old
      refine iff_of_false (by simp) ?_
      rintro ⟨_, rfl, new⟩
      exact (List.nodup_cons.1 new).1 old
    · next new =>
      rw [List.contains_iff_mem] at new
      split
      · next shadowing => simp [shadowing]
      · next apart =>
        constructor
        · rintro ⟨⟩
          exact ⟨⟨formed, apart⟩, rfl, List.nodup_cons.2 ⟨new, distinct⟩⟩
        · rintro ⟨_, rfl, _⟩
          rfl

/-- Accepted triggers are accepted one by one, and all are different. -/
theorem checkTrigger_foldlM_iff {seen after triggers : List String} (distinct : seen.Nodup) :
    triggers.foldlM (checkTrigger command) seen = .ok after ↔
      (∀ trigger ∈ triggers, HasTriggerForm trigger ∧
        trigger ∉ command.subcommands.map Command.name) ∧
        after = triggers.reverse ++ seen ∧ after.Nodup := by
  induction triggers generalizing seen with
  | nil =>
    constructor
    · rintro ⟨⟩
      exact ⟨by simp, rfl, distinct⟩
    · rintro ⟨_, rfl, _⟩
      rfl
  | cons trigger rest ih =>
    rw [List.foldlM_cons, bind_eq_ok_iff, List.forall_mem_cons, List.reverse_cons,
      List.append_assoc, List.singleton_append]
    constructor
    · rintro ⟨middle, first, others⟩
      obtain ⟨own, rfl, new⟩ := (checkTrigger_eq_ok_iff distinct).1 first
      obtain ⟨each, rfl, all⟩ := (ih new).1 others
      exact ⟨⟨own, each⟩, rfl, all⟩
    · rintro ⟨⟨own, each⟩, rfl, all⟩
      have new : (trigger :: seen).Nodup := (List.nodup_append.1 all).2.1
      exact ⟨_, (checkTrigger_eq_ok_iff distinct).2 ⟨own, rfl, new⟩, (ih new).2 ⟨each, rfl, all⟩⟩

/-- What a command asks of a parameter, apart from what its other parameters have taken. -/
structure MayDeclare (command : Command) (param : Param) : Prop where
  /-- Its name is not blank. -/
  named : ∃ c ∈ param.name.toList, Text.isBlank c = false
  /-- It is expected at least once. -/
  counted : param.arity ≠ .exactly 0
  /-- A flag has a trigger. -/
  triggered : ∀ triggers takesValue, param.form = .flag triggers takesValue → triggers ≠ []
  /-- Its triggers have the form of ones. -/
  formed : ∀ trigger ∈ param.triggers, HasTriggerForm trigger
  /-- None of them is the name of a subcommand. -/
  apart : ∀ trigger ∈ param.triggers, trigger ∉ command.subcommands.map Command.name
  /-- Every text in its default is decoded. -/
  defaulted : ∀ value, param.default = some value →
    ∀ raw, value.HasText raw → ∃ decoded, param.decoder.decode raw = .ok decoded

/-- The triggers of an accepted parameter are there, and they are accepted. -/
theorem checkTriggers_eq_ok_iff {seen after : List String} {param : Param}
    (distinct : seen.Nodup) : command.checkTriggers seen param = .ok after ↔
      (∀ triggers takesValue, param.form = .flag triggers takesValue → triggers ≠ []) ∧
      (∀ trigger ∈ param.triggers, HasTriggerForm trigger ∧
        trigger ∉ command.subcommands.map Command.name) ∧
        after = param.triggers.reverse ++ seen ∧ after.Nodup := by
  rw [checkTriggers, Param.triggers]
  cases form : param.form with
  | positional =>
    constructor
    · rintro ⟨⟩
      exact ⟨by simp, by simp, rfl, distinct⟩
    · rintro ⟨_, _, rfl, _⟩
      rfl
  | flag triggers takesValue =>
    cases triggers with
    | nil => simp
    | cons trigger rest =>
      have some_trigger : ∀ triggers takes, ParamForm.flag (trigger :: rest) takesValue =
          .flag triggers takes → triggers ≠ [] := by
        rintro _ _ ⟨⟩
        exact List.cons_ne_nil _ _
      exact (checkTrigger_foldlM_iff distinct).trans (and_iff_right some_trigger).symm

/-- No two of the names are the same, and no two of the triggers. -/
structure Taken.Distinct (taken : Taken) : Prop where
  /-- The names differ. -/
  names : taken.names.Nodup
  /-- The triggers differ. -/
  triggers : taken.triggers.Nodup

/-- A text is not blank exactly if it has a character that is not. -/
theorem allBlank_eq_false_iff {text : String} :
    Text.allBlank text = false ↔ ∃ c ∈ text.toList, Text.isBlank c = false := by
  simp [Text.allBlank]

/-- An accepted default is decoded. -/
theorem checkDefault_eq_ok_iff {param : Param} {taken after : Taken} :
    (match param.default with
      | some value => match param.decoder.decodeDefault value with
        | .error fault =>
          (throw (SchemaFault.invalidDefault param.name fault) : Except SchemaFault Unit) >>=
            fun _ => pure taken
        | _ => pure taken
      | _ => pure taken) = .ok after ↔
      (∀ value, param.default = some value →
        ∃ decoded, param.decoder.decodeDefault value = .ok decoded) ∧ after = taken := by
  cases declared : param.default with
  | none => simp [pure, Except.pure, eq_comm]
  | some value =>
    cases decodes : param.decoder.decodeDefault value with
    | error fault => simp [decodes, bind, Except.bind, throw, throwThe, MonadExceptOf.throw]
    | ok decoded => simp [decodes, pure, Except.pure, eq_comm]

/-- An accepted parameter may be declared, and takes a name and triggers that are new. -/
theorem checkParam_eq_ok_iff {taken after : Taken} {param : Param} (distinct : taken.Distinct) :
    command.checkParam taken param = .ok after ↔ command.MayDeclare param ∧
      after = ⟨param.name :: taken.names, param.triggers.reverse ++ taken.triggers⟩ ∧
        after.Distinct := by
  simp only [checkParam, refuse_eq_ok_iff, bind_eq_ok_iff,
    checkTriggers_eq_ok_iff distinct.triggers]
  constructor
  · rintro ⟨named, new, counted, triggers, ⟨triggered, each, rfl, all⟩, checked⟩
    obtain ⟨defaulted, rfl⟩ := checkDefault_eq_ok_iff.1 checked
    refine ⟨⟨?_, counted, triggered, fun trigger member => (each trigger member).1,
      fun trigger member => (each trigger member).2, fun value declared => ?_⟩, rfl, ?_, all⟩
    · exact allBlank_eq_false_iff.1 (Bool.eq_false_iff.2 named)
    · exact (Decoder.decodeDefault_isOk_iff _ value).1 (defaulted value declared)
    · exact List.nodup_cons.2 ⟨by simpa using new, distinct.names⟩
  · rintro ⟨may, rfl, names, triggers⟩
    have named := allBlank_eq_false_iff.2 may.named
    have new := (List.nodup_cons.1 names).1
    refine ⟨by simp [named], by simpa using new, may.counted, _, ⟨may.triggered,
      fun trigger member => ⟨may.formed trigger member, may.apart trigger member⟩, rfl, triggers⟩,
      checkDefault_eq_ok_iff.2 ⟨fun value declared => ?_, rfl⟩⟩
    exact (Decoder.decodeDefault_isOk_iff _ value).2 (may.defaulted value declared)

/-- Accepted parameters may each be declared, and take different names and triggers. -/
theorem checkParam_foldlM_iff {taken after : Taken} {params : List Param}
    (distinct : taken.Distinct) :
    params.foldlM (checkParam command) taken = .ok after ↔
      (∀ param ∈ params, command.MayDeclare param) ∧
        after = ⟨(params.map Param.name).reverse ++ taken.names,
          (params.flatMap Param.triggers).reverse ++ taken.triggers⟩ ∧ after.Distinct := by
  induction params generalizing taken with
  | nil =>
    constructor
    · rintro ⟨⟩
      exact ⟨by simp, rfl, distinct⟩
    · rintro ⟨_, rfl, _⟩
      rfl
  | cons param rest ih =>
    rw [List.foldlM_cons, bind_eq_ok_iff, List.forall_mem_cons, List.map_cons, List.reverse_cons,
      List.append_assoc, List.singleton_append, List.flatMap_cons, List.reverse_append,
      List.append_assoc]
    constructor
    · rintro ⟨middle, first, others⟩
      obtain ⟨own, rfl, new⟩ := (checkParam_eq_ok_iff distinct).1 first
      obtain ⟨each, rfl, all⟩ := (ih new).1 others
      exact ⟨⟨own, each⟩, rfl, all⟩
    · rintro ⟨⟨own, each⟩, rfl, all⟩
      have new : Taken.Distinct
          ⟨param.name :: taken.names, param.triggers.reverse ++ taken.triggers⟩ :=
        ⟨(List.nodup_append.1 all.names).2.1, (List.nodup_append.1 all.triggers).2.1⟩
      exact ⟨_, (checkParam_eq_ok_iff distinct).2 ⟨own, rfl, new⟩, (ih new).2 ⟨each, rfl, all⟩⟩

/-! ## Commands -/

/-- A command that declares what it may. Its subcommands are not looked into. -/
structure IsWellFormed (command : Command) : Prop where
  /-- It has a name. -/
  named : command.name ≠ ""
  /-- The name is one word. -/
  word : ∀ c ∈ command.name.toList, Text.isBlank c = false
  /-- It is expected at least once. -/
  counted : command.arity ≠ .exactly 0
  /-- Each of its parameters may be declared. -/
  params : ∀ param ∈ command.params, command.MayDeclare param
  /-- No two parameters share a name. -/
  names : (command.params.map Param.name).Nodup
  /-- No two subcommands share a name. -/
  commands : (command.subcommands.map Command.name).Nodup
  /-- No subcommand is named like a parameter. -/
  fields : ∀ subcommand ∈ command.subcommands, subcommand.name ∉ command.params.map Param.name
  /-- No two triggers are the same. -/
  triggers : (command.params.flatMap Param.triggers).Nodup

/-- A text that has no blank is blank only if it is empty. -/
theorem allBlank_eq_true_iff {text : String} (word : Text.anyBlank text = false) :
    Text.allBlank text = true ↔ text = "" := by
  rw [Text.anyBlank, List.any_eq_false] at word
  rw [Text.allBlank, List.all_eq_true, ← String.toList_eq_nil_iff]
  constructor
  · intro blank
    exact List.eq_nil_iff_forall_not_mem.2 fun c member => word c member (blank c member)
  · intro empty
    simp [empty]

/-- What a command declares apart from its subcommands is accepted if it has one word as its
name and each of its parameters may be declared beside those before it. -/
theorem checkOwn_eq_ok_iff : command.checkOwn = .ok () ↔
    (command.name ≠ "" ∧ Text.anyBlank command.name = false) ∧ command.arity ≠ .exactly 0 ∧
      (∀ param ∈ command.params, command.MayDeclare param) ∧
      (command.params.map Param.name).Nodup ∧ (command.params.flatMap Param.triggers).Nodup := by
  have nothing : Taken.Distinct ⟨[], []⟩ := ⟨List.nodup_nil, List.nodup_nil⟩
  simp only [checkOwn, refuse_eq_ok_iff, discard_eq_ok_iff, checkParam_foldlM_iff nothing]
  constructor
  · rintro ⟨named, word, counted, taken, each, rfl, distinct⟩
    have word := Bool.eq_false_iff.2 word
    refine ⟨⟨fun empty => named ((allBlank_eq_true_iff word).2 empty), word⟩, counted, each, ?_, ?_⟩
    · simpa using distinct.names
    · simpa using distinct.triggers
  · rintro ⟨⟨named, word⟩, counted, each, names, triggers⟩
    exact ⟨fun blank => named ((allBlank_eq_true_iff word).1 blank), Bool.eq_false_iff.1 word,
      counted, _, each, rfl, by simpa using names, by simpa using triggers⟩

/-- Accepted subcommands pass their own checks, have new and different names and share none
with a parameter. -/
theorem checkSubcommands_eq_ok_iff {seen : List String} {subcommands : List Command}
    (distinct : seen.Nodup) : checkSubcommands command seen subcommands = .ok () ↔
      (∀ inner ∈ subcommands, inner.check = .ok () ∧
        inner.name ∉ command.params.map Param.name) ∧
        ((subcommands.map Command.name).reverse ++ seen).Nodup := by
  induction subcommands generalizing seen with
  | nil => simpa [checkSubcommands] using distinct
  | cons first rest ih =>
    have shared : (command.param? first.name).isSome = true ↔
        first.name ∈ command.params.map Param.name := by
      simp [param?]
    rw [checkSubcommands, List.forall_mem_cons, List.map_cons, List.reverse_cons,
      List.append_assoc, List.singleton_append]
    simp only [refuse_eq_ok_iff, bind_eq_ok_iff, shared, List.contains_iff_mem]
    constructor
    · rintro ⟨apart, new, _, passes, others⟩
      obtain ⟨each, all⟩ := (ih (List.nodup_cons.2 ⟨new, distinct⟩)).1 others
      exact ⟨⟨⟨passes, apart⟩, each⟩, all⟩
    · rintro ⟨⟨⟨passes, apart⟩, each⟩, all⟩
      have distinct := (List.nodup_append.1 all).2.1
      exact ⟨apart, (List.nodup_cons.1 distinct).1, (), passes, (ih distinct).2 ⟨each, all⟩⟩

/-- A command passes its check exactly if it is well formed and its subcommands pass theirs. -/
theorem check_eq_ok_iff : command.check = .ok () ↔
    command.IsWellFormed ∧ ∀ inner ∈ command.subcommands, inner.check = .ok () := by
  have opened : command.check = .ok () ↔
      command.checkOwn = .ok () ∧ checkSubcommands command [] command.subcommands = .ok () := by
    cases command with
    | mk name description params subcommands required arity multiple =>
      rw [check]
      simp only [bind_eq_ok_iff]
      exact ⟨fun ⟨_, own, below⟩ => ⟨own, below⟩, fun ⟨own, below⟩ => ⟨(), own, below⟩⟩
  rw [opened, checkOwn_eq_ok_iff, checkSubcommands_eq_ok_iff List.nodup_nil, List.append_nil,
    List.nodup_reverse]
  constructor
  · rintro ⟨⟨⟨named, word⟩, counted, params, names, triggers⟩, each, commands⟩
    have word : ∀ c ∈ command.name.toList, Text.isBlank c = false := by
      simpa [Text.anyBlank] using word
    exact ⟨⟨named, word, counted, params, names, commands,
      fun inner member => (each inner member).2, triggers⟩,
      fun inner member => (each inner member).1⟩
  · rintro ⟨formed, passes⟩
    have word : Text.anyBlank command.name = false := by
      simpa [Text.anyBlank] using formed.word
    exact ⟨⟨⟨formed.named, word⟩, formed.counted, formed.params, formed.names, formed.triggers⟩,
      fun inner member => ⟨passes inner member, formed.fields inner member⟩, formed.commands⟩

/-! ## Views of a checked command -/

/-- What the check of a command finds about the command itself. -/
structure Declares (command : Command) : Prop where
  /-- Its name is no blank text. -/
  name : Text.allBlank command.name = false
  /-- Its name is one word. -/
  word : Text.anyBlank command.name = false
  /-- No two parameters share a name. -/
  names : (command.params.map Param.name).Nodup
  /-- No two triggers are the same. -/
  triggers : (command.params.flatMap Param.triggers).Nodup
  /-- Every trigger has the form of one. -/
  formed : ∀ trigger ∈ command.params.flatMap Param.triggers, isTrigger trigger.toList = true

/-- A command that passes its check declares what it must. -/
theorem declares_of_check (checked : command.check = .ok ()) : command.Declares := by
  have formed := (check_eq_ok_iff.1 checked).1
  have word : Text.anyBlank command.name = false := by
    simpa [Text.anyBlank] using formed.word
  refine ⟨Bool.eq_false_iff.2 fun blank => formed.named ((allBlank_eq_true_iff word).1 blank), word,
    formed.names, formed.triggers, fun trigger member => ?_⟩
  obtain ⟨param, declared, own⟩ := List.mem_flatMap.1 member
  exact isTrigger_iff.2 ((formed.params param declared).formed trigger own)

/-- An accepted flag has triggers, none of which is the name of a subcommand beside it. -/
structure Triggered (command : Command) (triggers : List String) : Prop where
  /-- There is a trigger. -/
  some : triggers ≠ []
  /-- No trigger is the name of a subcommand. -/
  apart : ∀ trigger ∈ triggers, trigger ∉ command.subcommands.map Command.name

/-- What the check of a command finds about what it declares together. -/
structure Nests (command : Command) : Prop where
  /-- Its subcommands pass their own checks. -/
  inner : ∀ inner ∈ command.subcommands, inner.check = .ok ()
  /-- No two of its parameters and subcommands share a name. -/
  fields : (command.params.map Param.name ++ command.subcommands.map Command.name).Nodup
  /-- Each of its flags has triggers, none of which is the name of a subcommand. -/
  triggered : ∀ param ∈ command.params, ∀ triggers takesValue,
    param.form = .flag triggers takesValue → command.Triggered triggers

/-- A command that passes its check declares things that go together. -/
theorem nests_of_check (checked : command.check = .ok ()) : command.Nests := by
  obtain ⟨formed, inner⟩ := check_eq_ok_iff.1 checked
  refine ⟨inner, List.nodup_append.2 ⟨formed.names, formed.commands, ?_⟩, ?_⟩
  · rintro name own _ below rfl
    obtain ⟨inner, member, rfl⟩ := List.mem_map.1 below
    exact formed.fields inner member own
  · intro param member triggers takesValue form
    have may := formed.params param member
    refine ⟨may.triggered triggers takesValue form, fun trigger known => may.apart trigger ?_⟩
    rw [Param.triggers, form]
    exact known

/-! ## Well-formed trees -/

/-- A command of a tree: the root, or a subcommand of one. -/
inductive Contains (root : Command) : Command → Prop where
  /-- The root. -/
  | self : Contains root root
  /-- A subcommand of a command of the tree. -/
  | subcommand {outer inner : Command} (above : Contains root outer)
      (member : inner ∈ outer.subcommands) : Contains root inner

/-- A subcommand's commands are the command's. -/
theorem Contains.of_mem {root outer inner : Command} (member : outer ∈ root.subcommands)
    (inside : outer.Contains inner) : root.Contains inner := by
  induction inside with
  | self => exact .subcommand .self member
  | subcommand _ below ih => exact .subcommand ih below

/-- Every command of a tree that passes the check passes it. -/
theorem Contains.check {root inner : Command} (inside : root.Contains inner)
    (checked : root.check = .ok ()) : inner.check = .ok () := by
  induction inside with
  | self => exact checked
  | subcommand _ member ih => exact (check_eq_ok_iff.1 ih).2 _ member

/-- What is true of a command if it is true of its subcommands is true of all commands. -/
theorem induction_below {motive : Command → Prop}
    (step : ∀ command, (∀ inner ∈ command.subcommands, motive inner) → motive command)
    (command : Command) : motive command := by
  refine step command fun inner member => ?_
  have smaller : sizeOf inner < sizeOf command := by
    cases command with
    | mk name description params subcommands required arity multiple =>
      have inside : sizeOf inner < sizeOf subcommands := List.sizeOf_lt_of_mem member
      simp only [mk.sizeOf_spec]
      omega
  exact induction_below step inner
termination_by sizeOf command

/-- A tree of well-formed commands passes the check. -/
theorem check_of_forall (command : Command)
    (formed : ∀ inner, command.Contains inner → inner.IsWellFormed) : command.check = .ok () := by
  induction command using induction_below with
  | step command below =>
    refine check_eq_ok_iff.2 ⟨formed command .self, fun inner member => ?_⟩
    exact below inner member fun other inside => formed other (.of_mem member inside)

/-- The check reports no fault exactly if every command of the tree is well formed, and one fault
otherwise. -/
theorem faults_eq_nil_iff (command : Command) :
    (command.faults = [] ↔ ∀ inner, command.Contains inner → inner.IsWellFormed) ∧
      (command.faults ≠ [] → ∃ fault, command.faults = [fault]) := by
  have passes : command.faults = [] ↔ command.check = .ok () := by
    rw [faults]
    cases command.check <;> simp
  constructor
  · rw [passes]
    exact ⟨fun checked inner inside => (check_eq_ok_iff.1 (inside.check checked)).1,
      check_of_forall command⟩
  · intro some_fault
    rw [faults]
    cases checked : command.check with
    | ok => exact absurd (passes.2 checked) some_fault
    | error fault => exact ⟨fault, rfl⟩

/-- Two subcommands may not share a name. -/
example : Command.faults { name := "top", subcommands := [{ name := "dog" }, { name := "dog" }] } =
    [.duplicateSubcommand "top" "dog"] := by
  cbv

end Command

end CommandGrammar
