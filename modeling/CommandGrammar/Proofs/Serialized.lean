import Mathlib
import CommandGrammar.Grammar.Compile
import CommandGrammar.Proofs.Schema.Codec
import CommandGrammar.Proofs.Schema.Filed
import CommandGrammar.Proofs.Schema.Rewritten

/-!
# Schemas that survive their texts

The document of a schema gives the schema back. Its text does so under two conditions. The reader
of texts allows 127 arrays and objects inside each other, and every command adds two; and it does
not round a decimal exactly, so the shortest digits of a number need not give it back. What is read
from a text that is not too deep is always the schema with the numbers of its defaults read so.
-/

namespace CommandGrammar

open Json

namespace Document

variable {schema : Command}

/-- A schema is read from either text exactly if its document is that of the one written with the
binary64 numbers reread, and the text is not too deep. -/
theorem read?_text_eq_some_iff (writable : schema.IsWritable)
    (finite : ∀ x, schema.Holds (.float x) → x.isFinite = true) {text : String}
    (member : text ∈ [(ofCommand schema).compact, (ofCommand schema).pretty]) {other : Command} :
    SchemaFormat.json.read? text = some other ↔ (ofCommand schema).nesting ≤ Json.dialect.levels ∧
      other.IsWritable ∧ (ofCommand schema).changed? reread? = some (ofCommand other) := by
  rw [SchemaFormat.read?_text schema (fits_ofCommand finite) text member]
  constructor
  · intro read
    split at read
    · next shallow =>
      obtain ⟨document, changed, stands⟩ := Option.bind_eq_some_iff.1 read
      obtain ⟨found, rfl, kept⟩ := exists_command_of_changed? schema changed
      rw [command_ofCommand (kept writable)] at stands
      obtain rfl := Option.some.inj stands
      exact ⟨shallow, kept writable, changed⟩
    · cases read
  · rintro ⟨shallow, kept, changed⟩
    rw [if_pos shallow, changed, Option.bind_some, command_ofCommand kept]
    rfl

/-- A schema is read back from either text exactly if the text is not too deep and the digits of
every number of its defaults give the number back. -/
theorem read?_text_eq_self_iff (writable : schema.IsWritable)
    (finite : ∀ x, schema.Holds (.float x) → x.isFinite = true) {text : String}
    (member : text ∈ [(ofCommand schema).compact, (ofCommand schema).pretty]) :
    SchemaFormat.json.read? text = some schema ↔ (ofCommand schema).nesting ≤ Json.dialect.levels ∧
      ∀ x, schema.Holds (.float x) → reread? x = some x := by
  rw [read?_text_eq_some_iff writable finite member, changed?_eq_self_iff]
  simp only [float_mem_scalars_iff, writable, true_and]

/-- The document of a schema is read as the schema. Of either text the schema that is read differs
at most in the numbers of the defaults: it is the one written exactly if the text nests no deeper
than 127 arrays and objects and the digits of each such number give it back, and with the schema
its faults, model and grammar come back. Of a text that nests deeper none is read. -/
theorem schema_survives (writable : schema.IsWritable)
    (finite : ∀ x, schema.Holds (.float x) → x.isFinite = true) :
    command (ofCommand schema) = .ok schema ∧
      ∀ text ∈ [(ofCommand schema).compact, (ofCommand schema).pretty],
        (∀ other, SchemaFormat.json.read? text = some other ↔ (ofCommand schema).nesting ≤ 127 ∧
          other.IsWritable ∧ (ofCommand schema).changed? reread? = some (ofCommand other)) ∧
        (SchemaFormat.json.read? text = some schema ↔ (ofCommand schema).nesting ≤ 127 ∧
          ∀ x, schema.Holds (.float x) → reread? x = some x) ∧
        ((ofCommand schema).nesting ≤ 127 → (∀ x, schema.Holds (.float x) → reread? x = some x) →
          ∃ other, SchemaFormat.json.read? text = some other ∧ other.faults = schema.faults ∧
            Model.ofSchema other = Model.ofSchema schema ∧
            ∀ mode, (Model.ofSchema other).map (·.grammar mode) =
              (Model.ofSchema schema).map (·.grammar mode)) ∧
        (127 < (ofCommand schema).nesting → SchemaFormat.json.read? text = none) := by
  refine ⟨command_ofCommand writable, fun text member => ?_⟩
  have back := read?_text_eq_self_iff writable finite member
  refine ⟨fun other => read?_text_eq_some_iff writable finite member, back, ?_, fun deep => ?_⟩
  · intro shallow steady
    exact ⟨schema, back.2 ⟨shallow, steady⟩, rfl, rfl, fun mode => rfl⟩
  · rw [SchemaFormat.read?_text schema (fits_ofCommand finite) text member, if_neg]
    exact Nat.not_le.2 deep

end Document

namespace Command

/-- A schema whose default nests a list in a map and numbers in the list, with a subcommand that
takes any number of values. -/
def layered : Command where
  name := "app"
  description := some "an app"
  params := [
    { name := "weights"
      form := .flag ["-w", "--weights"] true
      multiple := true
      default := some (.map [("high", .list [.float 0.5, .integer 2, .bool true]),
        ("low", .string "2")])
      kind := .float
      choices := ["2", "0.5"] }]
  subcommands := [
    { name := "run"
      params := [{ name := "file", form := .positional, arity := .unbounded }]
      required := true
      arity := .exactly 3 }]

/-- Both texts of a schema with a nested default and a subcommand are read as the schema. -/
theorem layered_survives : layered.IsWritable ∧
    (∀ x, layered.Holds (.float x) → x.isFinite = true) ∧
    SchemaFormat.json.read? (Document.ofCommand layered).compact = some layered ∧
    SchemaFormat.json.read? (Document.ofCommand layered).pretty = some layered := by
  have writable : layered.IsWritable := by
    refine isWritable_iff.2 ⟨?_, ?_⟩
    · simp only [layered, List.forall_mem_singleton]
      refine ⟨rfl, ?_⟩
      rintro _ ⟨⟩
      simp [Value.IsSorted, Value.EntriesSorted, Value.ItemsSorted, Keyed.Ordered]
      decide
    · simp only [layered, List.forall_mem_singleton]
      refine isWritable_iff.2 ⟨?_, List.forall_mem_nil _⟩
      simp only [List.forall_mem_singleton]
      exact ⟨rfl, nofun⟩
  have half (x : Float) (held : layered.Holds (.float x)) : x = 0.5 := by
    have member := Document.float_mem_scalars_iff.2 held
    simpa [layered, Document.ofCommand, Document.ofCommands, Document.ofParam, Document.memberOf,
      Document.ofForm, Document.ofArity, Value.toJson, Value.entriesToJson, Value.itemsToJson,
      scalars, memberScalars, itemScalars] using member
  have finite (x : Float) (held : layered.Holds (.float x)) : x.isFinite = true := by
    obtain rfl := half x held
    decide +kernel
  have steady (x : Float) (held : layered.Holds (.float x)) : reread? x = some x := by
    obtain rfl := half x held
    decide +kernel
  have shallow : (Document.ofCommand layered).nesting ≤ 127 := by
    decide
  have survives := (Document.schema_survives writable finite).2
  have compact := (survives (Document.ofCommand layered).compact (by simp)).2.1
  have pretty := (survives (Document.ofCommand layered).pretty (by simp)).2.1
  exact ⟨writable, finite, compact.2 ⟨shallow, steady⟩, pretty.2 ⟨shallow, steady⟩⟩

/-- A schema with a default that the digits of its text do not give back. -/
def rounded : Command where
  name := "c"
  params := [{
    name := "p"
    form := .positional
    default := some (.float 51.248178375505404)
    kind := .float }]

/-- Commands inside each other, as many as wanted around the innermost one. -/
def chain : Nat → Command
  | 0 => { name := "c" }
  | depth + 1 => { name := "c", subcommands := [chain depth] }

/-- A document keeps everything of a chain. -/
theorem chain_isWritable (depth : Nat) : (chain depth).IsWritable := by
  induction depth with
  | zero => exact isWritable_iff.2 ⟨List.forall_mem_nil _, List.forall_mem_nil _⟩
  | succ depth ih => exact isWritable_iff.2 ⟨List.forall_mem_nil _, List.forall_mem_singleton.2 ih⟩

/-- A chain has no defaults. -/
theorem not_chain_holds (depth : Nat) {scalar : Json} : ¬ (chain depth).Holds scalar := by
  induction depth with
  | zero =>
    rw [holds_iff]
    simp [chain]
  | succ depth ih =>
    rw [holds_iff]
    simpa [chain] using ih

/-- Every command of a chain adds two levels to its document. -/
theorem le_nesting_chain (depth : Nat) :
    2 * depth + 2 ≤ (Document.ofCommand (chain depth)).nesting := by
  induction depth with
  | zero => decide
  | succ depth ih =>
    have inside : chain depth ∈ (chain (depth + 1)).subcommands := List.mem_singleton.2 rfl
    have deeper := Document.nesting_of_mem_subcommands inside
    omega

/-- The text of a default is not read back, and that of a tree of 64 commands inside each other is
not read at all. -/
theorem texts_not_read_back :
    (rounded.IsWritable ∧ (∀ x, rounded.Holds (.float x) → x.isFinite = true) ∧
      SchemaFormat.json.read? (Document.ofCommand rounded).compact ≠ some rounded) ∧
    (chain 63).IsWritable ∧ (∀ x, ¬ (chain 63).Holds (.float x)) ∧
      SchemaFormat.json.read? (Document.ofCommand (chain 63)).compact ≠ some (chain 63) := by
  have writable : rounded.IsWritable := by
    refine isWritable_iff.2 ⟨?_, List.forall_mem_nil _⟩
    simp only [rounded, List.forall_mem_singleton]
    refine ⟨rfl, ?_⟩
    rintro _ ⟨⟩
    simp [Value.IsSorted]
  have held (x : Float) : rounded.Holds (.float x) ↔ x = 51.248178375505404 := by
    rw [← Document.float_mem_scalars_iff]
    simp [rounded, Document.ofCommand, Document.ofCommands, Document.ofParam, Document.memberOf,
      Document.ofForm, Document.ofArity, Value.toJson, scalars, memberScalars, itemScalars]
  have finite (x : Float) (inside : rounded.Holds (.float x)) : x.isFinite = true := by
    rw [(held x).1 inside]
    decide +kernel
  have unlike : reread? 51.248178375505404 ≠ some 51.248178375505404 := by
    decide +kernel
  have deep := le_nesting_chain 63
  refine ⟨⟨writable, finite, fun read => ?_⟩, chain_isWritable 63,
    fun x => not_chain_holds 63, fun read => ?_⟩
  · have steady := ((Document.read?_text_eq_self_iff writable finite (by simp)).1 read).2
    exact unlike (steady _ ((held _).2 rfl))
  · have shallow := ((Document.read?_text_eq_self_iff (chain_isWritable 63)
      (fun x inside => absurd inside (not_chain_holds 63)) (by simp)).1 read).1
    rw [show Json.dialect.levels = 127 from rfl] at shallow
    omega

end Command

end CommandGrammar
