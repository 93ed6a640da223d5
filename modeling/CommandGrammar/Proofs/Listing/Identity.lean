import Mathlib
import CommandGrammar.Proofs.Listing.Grammars

/-!
# Listings identify grammars

The grammar of a model is read from its listing, so two of them with the same listing are the
same, whichever schemas and whichever mode they come from. The fingerprint writes the digest of
the bytes of a listing without loss: two different grammars with one fingerprint would be
a collision of the digest.
-/

namespace CommandGrammar

/-! ## Bytes -/

namespace Digest

/-- Different messages with the same digest. -/
def Collide (first second : List UInt8) : Prop := first ≠ second ∧ sha256 first = sha256 second

/-- A byte is known from its two hexadecimal digits. -/
theorem byte_of_digits {first second : UInt8}
    (high : Nat.digitChar (first.toNat / 16) = Nat.digitChar (second.toNat / 16))
    (low : Nat.digitChar (first.toNat % 16) = Nat.digitChar (second.toNat % 16)) :
    first = second := by
  have value {n other : Nat} (small : n < 16) (small' : other < 16)
      (same : Nat.digitChar n = Nat.digitChar other) : n = other := by
    have read := Text.hexDigit?_digitChar small
    rw [same, Text.hexDigit?_digitChar small'] at read
    exact (Option.some.inj read).symm
  have bound := first.toNat_lt
  have bound' := second.toNat_lt
  have upper := value (by omega) (by omega) high
  have lower := value (by omega) (by omega) low
  exact UInt8.toNat_inj.1 (by omega)

/-- Bytes are known from their hexadecimal digits. -/
theorem hexadecimal_injective : Function.Injective hexadecimal := by
  intro first second same
  have digits := congrArg String.toList same
  simp only [hexadecimal, String.toList_ofList] at digits
  clear same
  induction first generalizing second with
  | nil =>
    cases second with
    | nil => rfl
    | cons byte rest => cases digits
  | cons byte rest ih =>
    cases second with
    | nil => cases digits
    | cons other others =>
      simp only [List.flatMap_cons, List.cons_append, List.nil_append, List.cons.injEq] at digits
      obtain ⟨high, low, rest⟩ := digits
      rw [byte_of_digits high low, ih rest]

/-- The bytes of an array from a place on, in order. -/
theorem toList_loop (bytes : ByteArray) (place : Nat) (read : List UInt8) :
    ByteArray.toList.loop bytes place read = read.reverse ++ bytes.data.toList.drop place := by
  fun_induction ByteArray.toList.loop bytes place read with
  | case1 place read inside ih =>
    have listed : place < bytes.data.toList.length := by simpa using inside
    have byte : bytes.get! place = bytes.data.toList[place] := getElem!_pos bytes.data place inside
    rw [ih, List.drop_eq_getElem_cons listed, List.reverse_cons, List.append_assoc, byte]
    rfl
  | case2 place read outside =>
    have past : bytes.data.toList.length ≤ place := by simpa using outside
    rw [List.drop_eq_nil_of_le past, List.append_nil]

/-- A text is known from its bytes. -/
theorem toUTF8_toList_injective : Function.Injective fun text : String => text.toUTF8.toList := by
  intro first second same
  simp only [ByteArray.toList, toList_loop, List.reverse_nil, List.nil_append, List.drop_zero]
    at same
  exact String.toByteArray_inj.1 (ByteArray.ext (Array.toList_inj.1 same))

end Digest

/-! ## Grammars -/

/-- The bytes whose digest is the fingerprint of a grammar. -/
def Grammar.bytes (grammar : Grammar) : List UInt8 := grammar.listing.toUTF8.toList

/-- The listing of a grammar tells it from another one. -/
structure Grammar.ToldApart (grammar other : Grammar) : Prop where
  /-- With the same listing they are the same. -/
  listing : grammar.listing = other.listing → grammar = other
  /-- With the same listing they accept the same tokens. -/
  accepts : grammar.listing = other.listing →
    ∀ tokens, grammar.Accepts tokens ↔ other.Accepts tokens
  /-- With the same fingerprint they are the same, unless their listings are a collision. -/
  fingerprint : ¬Digest.Collide grammar.bytes other.bytes →
    grammar.fingerprint = other.fingerprint → grammar = other

/-- Legible grammars are told apart by their listings. -/
theorem Listing.Legible.toldApart {grammar other : Grammar} (legible : Legible grammar)
    (readable : Legible other) : grammar.ToldApart other := by
  have same : grammar.listing = other.listing → grammar = other := by
    intro listing
    have read := legible.readListing
    rw [listing] at read
    exact read.unique readable.readListing
  refine ⟨same, fun listing tokens => by rw [same listing], fun apart fingerprint => ?_⟩
  have digest : Digest.sha256 grammar.bytes = Digest.sha256 other.bytes :=
    Digest.hexadecimal_injective fingerprint
  have bytes : grammar.bytes = other.bytes := by
    by_contra differ
    exact apart ⟨differ, digest⟩
  exact same (Digest.toUTF8_toList_injective bytes)

namespace Model

variable {schema other : Command} {model : Model}

/-- The names of rules tell the nodes of a model apart. -/
theorem ruleNames_nodup (made : ofSchema schema = .ok model) :
    (model.nodes.map ruleName).Nodup := by
  refine (nodes_nodup made).map_on fun node member other member' same => ?_
  have found := node?_id made member
  have number : node.id = other.id := (names_ruleName node).unique (same ▸ names_ruleName other)
  rw [number, node?_id made member'] at found
  exact (Option.some.inj found).symm

/-- The listings of the compiled grammars of two schemas without fault tell these grammars from each
other, and the rules of each grammar have different names. -/
theorem listing_identifies (valid : schema.faults = []) (valid' : other.faults = []) :
    ∃ model twin, ofSchema schema = .ok model ∧ ofSchema other = .ok twin ∧
      ∀ mode mode' : RequiredParams,
        (model.grammar mode).ToldApart (twin.grammar mode') ∧
          ((model.grammar mode).productions.map Production.name).Nodup := by
  obtain ⟨model, made⟩ := exists_model valid
  obtain ⟨twin, made'⟩ := exists_model valid'
  refine ⟨model, twin, made, made', fun mode mode' => ⟨?_, ?_⟩⟩
  · exact (legible_grammar made mode).toldApart (legible_grammar made' mode')
  · rw [grammar, List.map_map]
    exact ruleNames_nodup made

/-- A command with two options whose names differ only where rule names do not. -/
def printer : Command :=
  { name := "printer"
    params := [
      { Param.option ["-p", "--page"] with name := "page-size" },
      { Param.switch ["-s"] with name := "Page Size" }] }

/-- The rules of the two options differ by their numbers, and the two grammars of the command are
the same since they have the same listing. -/
theorem printer_identified : ∃ model, ofSchema printer = .ok model ∧
    (model.grammar .counted).listing =
      "printer_0 : \"printer\" (page_size_1 | page_size_2) ~ 1..2\n" ++
      "page_size_1 : (\"-p\" \"=\"? value) | (\"--page\" \"=\"? value)\n" ++
      "page_size_2 : \"-s\"\n" ++ "?value : /\\S+/\n" ++ "?start : printer_0\n" ∧
    model.grammar .counted = model.grammar .deferred := by
  have valid : printer.faults = [] := by decide +kernel
  obtain ⟨model, twin, made, made', apart⟩ := listing_identifies valid valid
  cases made
  cases made'
  exact ⟨_, rfl, by decide +kernel, (apart .counted .deferred).1.listing (by decide +kernel)⟩

end Model

end CommandGrammar
