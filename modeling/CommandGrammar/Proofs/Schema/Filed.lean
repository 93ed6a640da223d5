import Mathlib
import CommandGrammar.Proofs.Json.Texts
import CommandGrammar.Proofs.Schema.Check
import CommandGrammar.Schema.File

/-!
# Schemas in files of JSON

A file is read with the reader of schemas in mind, which skips the members it does not know. The
document of a schema has no others, so from a file of JSON that reader takes the very document that
the reader of all JSON takes, level by level.
-/

namespace CommandGrammar.SchemaFormat

open Json

variable {levels : Nat} {name : String} {document : Written}

/-- Words and strings of a file stand for what they stand for in all JSON. -/
theorem dialect_json : json.dialect = Json.dialect := rfl

/-- A word of JSON is never a text. -/
theorem text?_json : json.text? levels document = Json.dialect.document? levels document := by
  cases document with
  | word cs =>
    rw [text?, Dialect.document?]
    rfl
  | quoted | array | object => rfl

/-- A list of documents where texts are wanted. -/
theorem mapM_text?_json (items : List Written) :
    items.mapM (json.text? levels) = Json.dialect.items? levels items := by
  induction items with
  | nil => rfl
  | cons first rest ih => rw [List.mapM_cons, ih, text?_json, Dialect.items?]

/-- A part of a command or parameter is read like any document. -/
theorem part?_json :
    json.part? levels name document = Json.dialect.document? levels document := by
  rw [part?.eq_def]
  split
  · exact text?_json
  · split
    · next absent =>
      subst absent
      cases levels <;> rfl
    · exact text?_json
  · cases levels with
    | zero => rfl
    | succ levels => simp [mapM_text?_json, Dialect.document?]
  · rfl
  · rfl

/-- The members of a parameter are read like any members if parameters have them. -/
theorem paramMembers?_written (members : List (String × Json))
    (known : ∀ member ∈ members, member.1 ∈ Document.paramNames) :
    json.paramMembers? levels (writtenMembers members) =
      Json.dialect.members? levels (writtenMembers members) := by
  match members with
  | [] => rfl
  | (name, value) :: rest =>
    obtain ⟨listed, others⟩ := List.forall_mem_cons.1 known
    have later := paramMembers?_written rest others
    have named : Json.dialect.text? (name.toList.flatMap escape) = some name :=
      unescape_escaped name
    rw [writtenMembers, paramMembers?, Dialect.members?, dialect_json, named]
    simp [listed, part?_json, later]

/-- A parameter is read like any document. -/
theorem param?_written (param : Param) :
    json.param? levels (Document.ofParam param).written =
      Json.dialect.document? levels (Document.ofParam param).written := by
  cases levels with
  | zero => rfl
  | succ levels =>
    rw [Document.ofParam, written, param?, Dialect.document?, paramMembers?_written]
    simp only [List.forall_mem_append]
    refine ⟨⟨⟨⟨by simp [Document.paramNames], ?_⟩, by simp [Document.paramNames]⟩, ?_⟩, ?_⟩
    · cases param.default <;> simp [Document.memberOf, Document.paramNames]
    · split <;> simp [Document.paramNames]
    · cases param.description <;> simp [Document.memberOf, Document.paramNames]

/-- Parameters are read like any document. -/
theorem params?_written (declared : List Param) :
    json.params? levels (Json.array (declared.map Document.ofParam)).written =
      Json.dialect.document? levels (Json.array (declared.map Document.ofParam)).written := by
  cases levels with
  | zero => rfl
  | succ levels =>
    have items : (writtenItems (declared.map Document.ofParam)).mapM (json.param? levels) =
        Json.dialect.items? levels (writtenItems (declared.map Document.ofParam)) := by
      induction declared with
      | nil => rfl
      | cons first rest ih =>
        rw [List.map_cons, writtenItems, List.mapM_cons, ih, param?_written, Dialect.items?]
    rw [written, params?, Dialect.document?, items]

/-- The members of a command are read like any members if commands have them and each is read like
any document. -/
theorem commandMembers?_written (members : List (String × Json))
    (known : ∀ member ∈ members, member.1 ∈ Document.commandNames)
    (alike : ∀ member ∈ members, json.commandPart? levels member.1 member.2.written =
      Json.dialect.document? levels member.2.written) :
    json.commandMembers? levels (writtenMembers members) =
      Json.dialect.members? levels (writtenMembers members) := by
  match members with
  | [] => rw [writtenMembers, commandMembers?, Dialect.members?]
  | (name, value) :: rest =>
    obtain ⟨listed, others⟩ := List.forall_mem_cons.1 known
    obtain ⟨own, othersAlike⟩ := List.forall_mem_cons.1 alike
    have later := commandMembers?_written rest others othersAlike
    have named : Json.dialect.text? (name.toList.flatMap escape) = some name :=
      unescape_escaped name
    rw [writtenMembers, commandMembers?, Dialect.members?, dialect_json, named]
    simp [listed, own, later]

/-- Command trees are read like any document if each of them is. -/
theorem commands?_written (declared : List Command)
    (each : ∀ inner ∈ declared, ∀ levels, json.command? levels (Document.ofCommand inner).written =
      Json.dialect.document? levels (Document.ofCommand inner).written) :
    json.commands? levels (Json.array (Document.ofCommands declared)).written =
      Json.dialect.document? levels (Json.array (Document.ofCommands declared)).written := by
  cases levels with
  | zero => simp [written, commands?, Dialect.document?]
  | succ levels =>
    have trees : json.commandTrees? levels (writtenItems (Document.ofCommands declared)) =
        Json.dialect.items? levels (writtenItems (Document.ofCommands declared)) := by
      induction declared with
      | nil => rw [Document.ofCommands, writtenItems, commandTrees?, Dialect.items?]
      | cons first rest ih =>
        obtain ⟨own, others⟩ := List.forall_mem_cons.1 each
        rw [Document.ofCommands, writtenItems, commandTrees?, Dialect.items?, own levels, ih others]
    rw [written, commands?, Dialect.document?, trees]

/-- A command tree is read like any document. -/
theorem command?_written (schema : Command) (levels : Nat) :
    json.command? levels (Document.ofCommand schema).written =
      Json.dialect.document? levels (Document.ofCommand schema).written := by
  induction schema using Command.induction_below generalizing levels with
  | step schema below =>
    cases levels with
    | zero =>
      cases schema
      simp [Document.ofCommand, written, command?, Dialect.document?]
    | succ levels =>
      have params := @params?_written levels schema.params
      have subcommands := @commands?_written levels schema.subcommands below
      obtain ⟨name, description, declared, inner, required, count, multiple⟩ := schema
      rw [Document.ofCommand, written, command?, Dialect.document?, commandMembers?_written]
      · cases description <;> simp [Document.memberOf, Document.commandNames]
      · cases description <;>
          simp [Document.memberOf, commandPart?, part?_json, params, subcommands]

/-- Either text of the document of a schema is read as what its document with the binary64 numbers
reread stands for, if it does not nest too deep. -/
theorem read?_text (schema : Command)
    (fits : ∀ scalar ∈ (Document.ofCommand schema).scalars, scalar.Fits) :
    ∀ text ∈ [(Document.ofCommand schema).compact, (Document.ofCommand schema).pretty],
      json.read? text =
        if (Document.ofCommand schema).nesting ≤ Json.dialect.levels then
          ((Document.ofCommand schema).changed? reread?).bind fun document =>
            (Document.command document).toOption
        else none := by
  intro text member
  have written := written_of_text (Document.ofCommand schema) fits text member
  have document := document?_written Json.dialect.levels (Document.ofCommand schema) fits
  have body : json.body? text.toList = some text.toList := rfl
  rw [read?, body, Option.bind_eq_bind, Option.bind_some, written, Option.bind_eq_bind,
    Option.bind_some, dialect_json, command?_written, document]
  split <;> rfl

end CommandGrammar.SchemaFormat
