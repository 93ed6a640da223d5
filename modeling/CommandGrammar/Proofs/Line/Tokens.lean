import Mathlib
import CommandGrammar.Proofs.Line.Words

/-!
# Tokens of written words

What the tokens of a word say depends on its characters and on how many of them are bare. A
word that begins with no trigger and equals sign is one token, and one that begins with
a trigger and a bare equals sign is three.
-/

namespace CommandGrammar.Line

/-- The word begins with an accepted trigger and an equals sign. -/
def Joins (isTrigger : String → Bool) (chars : List Char) : Prop :=
  ∃ flag, isTrigger flag = true ∧ (flag.toList ++ ['=']) <+: chars

/-- With a list of triggers it can be checked whether a word joins one. -/
instance (triggers : List String) (chars : List Char) :
    Decidable (Joins triggers.contains chars) :=
  decidable_of_iff (∃ flag ∈ triggers, (flag.toList ++ ['=']) <+: chars) (by simp [Joins])

variable {isTrigger : String → Bool}

/-- What the tokens of a word of some characters say, of which a number are bare. -/
def tokenTexts (isTrigger : String → Bool) (shape : List Char × Nat) : List String :=
  ((⟨0, shape.1, shape.2⟩ : Word).tokens isTrigger).map Token.text

/-- What the tokens of a word say does not depend on where it stands. -/
theorem tokens_text (word : Word) :
    (word.tokens isTrigger).map Token.text = tokenTexts isTrigger (word.chars, word.bare) := by
  have same : word.trigger? = (⟨0, word.chars, word.bare⟩ : Word).trigger? := rfl
  unfold tokenTexts Word.tokens
  rw [same]
  simp only
  split
  · rfl
  · split <;> rfl

/-- What the tokens of a line say. -/
def texts (isTrigger : String → Bool) (line : String) : Except LexFault (List String) :=
  (tokenizeWith isTrigger line).map (·.map Token.text)

/-- Characters with an equals sign among them begin with those before it and the sign. -/
theorem takeWhile_sign {plain : List Char}
    (shorter : (plain.takeWhile (· ≠ '=')).length < plain.length) :
    plain.takeWhile (· ≠ '=') ++ ['='] <+: plain := by
  induction plain with
  | nil => cases shorter
  | cons c rest ih =>
    by_cases sign : c = '='
    · subst sign
      exact ⟨rest, rfl⟩
    · rw [List.takeWhile_cons_of_pos (by simpa using sign)] at shorter ⊢
      rw [List.cons_append, List.cons_prefix_cons]
      exact ⟨rfl, ih (Nat.lt_of_succ_lt_succ shorter)⟩

/-- The trigger of a word: the characters before the first sign of the bare part. -/
theorem trigger?_eq_some {word : Word} {letters : List Char}
    (found : word.trigger? = some letters) :
    letters ++ ['='] <+: word.chars.take word.bare ∧ '=' ∉ letters ∧ 2 ≤ letters.length ∧
      letters.head? = some '-' := by
  unfold Word.trigger? at found
  simp only [Option.ite_none_right_eq_some, Option.some.injEq] at found
  obtain ⟨⟨shorter, long, dash⟩, rfl⟩ := found
  refine ⟨takeWhile_sign shorter, ?_, long, dash⟩
  intro member
  have apart := List.mem_takeWhile_imp member
  simp at apart

/-- The trigger of a word is what its bare part begins with before the first sign. -/
theorem trigger?_eq_some_iff {word : Word} {letters : List Char} :
    word.trigger? = some letters ↔
      letters ++ ['='] <+: word.chars.take word.bare ∧ '=' ∉ letters ∧ 2 ≤ letters.length ∧
        letters.head? = some '-' := by
  refine ⟨trigger?_eq_some, ?_⟩
  rintro ⟨⟨rest, same⟩, free, long, dash⟩
  rw [List.append_assoc, List.singleton_append] at same
  have first : (letters ++ '=' :: rest).takeWhile (· ≠ '=') = letters := by
    rw [List.takeWhile_append_of_pos]
    · simp
    · intro c member
      simpa using fun sign : c = '=' => free (sign ▸ member)
  unfold Word.trigger?
  simp only [← same, first]
  exact if_pos ⟨by simp, long, dash⟩

/-- A word that begins with no accepted trigger and equals sign is one token. -/
theorem tokenTexts_whole {chars : List Char} {bare : Nat} (apart : ¬ Joins isTrigger chars) :
    tokenTexts isTrigger (chars, bare) = [String.ofList chars] := by
  unfold tokenTexts Word.tokens
  split
  · rfl
  · next flag found =>
    have begins := (trigger?_eq_some found).1
    rw [if_neg]
    · rfl
    · intro known
      refine apart ⟨_, known, ?_⟩
      rw [String.toList_ofList]
      exact begins.trans (List.take_prefix _ _)

/-- A word that begins with an accepted trigger and a bare equals sign is three tokens. -/
theorem tokenTexts_joined {flag text : List Char} {bare : Nat} (long : 2 ≤ flag.length)
    (dash : flag.head? = some '-') (free : '=' ∉ flag)
    (known : isTrigger (String.ofList flag) = true) (inside : flag.length < bare) :
    tokenTexts isTrigger (flag ++ '=' :: text, bare) =
      [String.ofList flag, "=", String.ofList text] := by
  have begins : flag ++ ['='] <+: (flag ++ '=' :: text).take bare := by
    rw [List.prefix_take_iff]
    exact ⟨⟨text, by simp⟩, by simpa using inside⟩
  have trigger : (⟨0, flag ++ '=' :: text, bare⟩ : Word).trigger? = some flag :=
    trigger?_eq_some_iff.2 ⟨begins, free, long, dash⟩
  unfold tokenTexts Word.tokens
  simp only [trigger, known, if_true]
  simp

/-- The tokens of a line of written texts. -/
theorem tokenizeWith_join {texts : List String} {shapes : List (List Char × Nat)}
    (writes : List.Forall₂ (fun text shape => Writes text.toList shape.1 shape.2) texts shapes) :
    ∃ tokens, tokenizeWith isTrigger (Text.join " " texts) = .ok tokens ∧
      tokens.map Token.text = shapes.flatMap (tokenTexts isTrigger) := by
  obtain ⟨found, scanned, shape⟩ := words_join writes
  refine ⟨_, by rw [tokenizeWith, scanned]; rfl, ?_⟩
  rw [← shape, List.map_flatMap, List.flatMap_map]
  simp only [tokens_text]

/-- The tokens of the line that passes arguments are those of one argument after the other. -/
theorem tokenizeWith_joinArguments (arguments : List String) :
    ∃ tokens, tokenizeWith isTrigger (joinArguments arguments) = .ok tokens ∧
      tokens.map Token.text = arguments.flatMap fun argument =>
        tokenTexts isTrigger (argument.toList, bareLength argument.toList) := by
  have writes : List.Forall₂ (fun text shape => Writes text.toList shape.1 shape.2)
      (arguments.map quote)
      (arguments.map fun argument => (argument.toList, bareLength argument.toList)) := by
    rw [List.forall₂_map_left_iff, List.forall₂_map_right_iff]
    refine List.forall₂_same.2 fun argument _ => ?_
    have written := writes_quote (List.all_nil) argument
    simpa using written
  obtain ⟨tokens, scanned, texts⟩ := @tokenizeWith_join isTrigger _ _ writes
  exact ⟨tokens, scanned, by rw [texts, List.flatMap_map]⟩

/-- The argument is one token of a line that passes it. -/
def IsWhole (isTrigger : String → Bool) (argument : String) : Prop :=
  tokenTexts isTrigger (argument.toList, bareLength argument.toList) = [argument]

instance (isTrigger : String → Bool) (argument : String) :
    Decidable (IsWhole isTrigger argument) :=
  inferInstanceAs (Decidable (_ = _))

/-- An argument that begins with no accepted trigger and equals sign is one token. -/
theorem isWhole_of_apart {argument : String} (apart : ¬ Joins isTrigger argument.toList) :
    IsWhole isTrigger argument := by
  rw [IsWhole, tokenTexts_whole apart, String.ofList_toList]

/-- Arguments that are not cut are the tokens of the line that passes them. -/
theorem tokenizeWith_whole {arguments : List String}
    (whole : ∀ argument ∈ arguments, IsWhole isTrigger argument) :
    ∃ tokens, tokenizeWith isTrigger (joinArguments arguments) = .ok tokens ∧
      tokens.map Token.text = arguments := by
  obtain ⟨tokens, scanned, texts⟩ := @tokenizeWith_joinArguments isTrigger arguments
  refine ⟨tokens, scanned, ?_⟩
  rw [texts, List.flatMap_congr whole]
  exact List.flatMap_singleton' arguments

end CommandGrammar.Line
