import Mathlib
import CommandGrammar.Json.Printer
import CommandGrammar.Json.Reader
import CommandGrammar.Proofs.Listing.Escaped

/-!
# Strings between quotes

Each character of a text stands between the quotes for itself or as an escape. Read one escape
after the other, the quoted text ends at its closing quote and nowhere before it, and what the
escapes stand for is the text.
-/

namespace CommandGrammar.Json

variable {c : Char} {read rest : List Char}

/-- Two zeros and the two digits of a control are its code unit. -/
theorem codeUnit?_control (control : c.toNat < 0x20) :
    Written.codeUnit? '0' '0' (hexDigit (c.toNat / 16)) (hexDigit (c.toNat % 16)) =
      some c.toNat := by
  have zero : Number.hexDigit? '0' = some 0 := by decide
  have high := @Text.hexDigit?_digitChar (c.toNat / 16) (by omega)
  have low := @Text.hexDigit?_digitChar (c.toNat % 16) (Nat.mod_lt _ (by decide))
  have whole : 16 * (c.toNat / 16) + c.toNat % 16 = c.toNat := Nat.div_add_mod _ _
  simp [Written.codeUnit?, hexDigit, zero, high, low, whole]

/-- The cases of a character between quotes: a one-letter escape, a control, or itself. -/
theorem escape_cases (c : Char) :
    (∃ letter, escape c = ['\\', letter] ∧ letter ≠ 'u' ∧ Written.escaped? letter = some c) ∨
      (c.toNat < 0x20 ∧ escape c =
        ['\\', 'u', '0', '0', hexDigit (c.toNat / 16), hexDigit (c.toNat % 16)]) ∨
      (c ≠ '"' ∧ c ≠ '\\' ∧ 0x20 ≤ c.toNat ∧ escape c = [c]) := by
  unfold escape
  split
  · next same =>
    subst same
    exact .inl ⟨'"', rfl, by decide, rfl⟩
  split
  · next same =>
    subst same
    exact .inl ⟨'\\', rfl, by decide, rfl⟩
  split
  · next same =>
    subst same
    exact .inl ⟨'b', rfl, by decide, rfl⟩
  split
  · next same =>
    subst same
    exact .inl ⟨'f', rfl, by decide, rfl⟩
  split
  · next same =>
    subst same
    exact .inl ⟨'n', rfl, by decide, rfl⟩
  split
  · next same =>
    subst same
    exact .inl ⟨'r', rfl, by decide, rfl⟩
  split
  · next same =>
    subst same
    exact .inl ⟨'t', rfl, by decide, rfl⟩
  split
  · next control => exact .inr (.inl ⟨control, rfl⟩)
  · next noQuote noBackslash _ _ _ _ _ visible =>
    exact .inr (.inr ⟨noQuote, noBackslash, Nat.not_lt.1 visible, rfl⟩)

/-- A one-letter escape is read as it is written. -/
theorem readQuoted_letter {letter : Char} (noUnit : letter ≠ 'u')
    (known : (Written.escaped? letter).isSome = true) :
    Written.readQuoted read ('\\' :: letter :: rest) =
      Written.readQuoted (letter :: '\\' :: read) rest := by
  rw [Written.readQuoted]
  · rw [if_pos known]
  · intro a b c d cs same
    exact absurd same noUnit

/-- Any other character is read as it is. -/
theorem readQuoted_plain (noQuote : c ≠ '"') (noBackslash : c ≠ '\\') (visible : 0x20 ≤ c.toNat) :
    Written.readQuoted read (c :: rest) = Written.readQuoted (c :: read) rest := by
  have printable : ¬ (c.toNat < 0x20 ∨ c = '\\') := by
    rintro (control | same)
    · omega
    · exact noBackslash same
  rw [Written.readQuoted]
  · rw [if_neg printable]
  all_goals simp [noQuote, noBackslash]

/-- What stands for a character is read as a part of the quoted text. -/
theorem readQuoted_escape : Written.readQuoted read (escape c ++ rest) =
    Written.readQuoted ((escape c).reverse ++ read) rest := by
  rcases escape_cases c with
    ⟨letter, same, noUnit, meaning⟩ | ⟨control, same⟩ | ⟨noQuote, noBackslash, visible, same⟩
  · have known : (Written.escaped? letter).isSome = true := by rw [meaning]; rfl
    rw [same]
    exact readQuoted_letter noUnit known
  · rw [same]
    simp [Written.readQuoted, codeUnit?_control control]
  · rw [same]
    exact readQuoted_plain noQuote noBackslash visible

/-- A quoted text is read up to its closing quote. -/
theorem readQuoted_escaped (cs : List Char) :
    Written.readQuoted read (cs.flatMap escape ++ '"' :: rest) =
      some (read.reverse ++ cs.flatMap escape, rest) := by
  induction cs generalizing read with
  | nil => simp [Written.readQuoted]
  | cons c cs ih =>
    rw [List.flatMap_cons, List.append_assoc, readQuoted_escape, ih]
    simp

/-- What stands for a character stands for it. -/
theorem unescape_escape : unescape read (escape c ++ rest) = unescape (c :: read) rest := by
  rcases escape_cases c with
    ⟨letter, same, noUnit, meaning⟩ | ⟨control, same⟩ | ⟨noQuote, noBackslash, visible, same⟩
  · rw [same, List.cons_append, List.cons_append, List.nil_append, unescape]
    · rw [meaning]
      rfl
    · intro a b c d cs same
      exact absurd same noUnit
  · rw [same]
    have low : isLowUnit c.toNat = false := by simp [isLowUnit]; omega
    have high : isHighUnit c.toNat = false := by simp [isHighUnit]; omega
    simp [unescape, codeUnit?_control control, low, high, Char.ofNat_toNat]
  · rw [same, List.cons_append, List.nil_append, unescape]
    all_goals simp [noBackslash]

/-- What stands between the quotes of a text stands for the text. -/
theorem unescape_escaped (text : String) :
    unescape [] (text.toList.flatMap escape) = some text := by
  have run : ∀ cs read, unescape read (cs.flatMap escape) =
      some (String.ofList (read.reverse ++ cs)) := by
    intro cs
    induction cs with
    | nil => intro read; simp [unescape]
    | cons c cs ih =>
      intro read
      rw [List.flatMap_cons, unescape_escape, ih]
      simp
  simpa using run text.toList []

end CommandGrammar.Json
