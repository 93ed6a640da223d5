import Mathlib
import CommandGrammar.Proofs.Line.Tokens

/-!
# Tokens of arguments

A line that passes arguments is cut into the tokens of one argument after the other, whatever
characters they have. An argument that joins an accepted trigger and a text and needs no quoting
is three tokens; any other is one, since between quotes nothing is a trigger.
-/

namespace CommandGrammar.Line

variable {isTrigger : String → Bool} {argument flag text : String}

/-- The argument joins an accepted trigger and a text by an equals sign and needs no quoting. -/
structure JoinedAs (isTrigger : String → Bool) (argument flag text : String) : Prop where
  /-- It is the trigger, the sign and the text. -/
  parts : argument = flag ++ "=" ++ text
  /-- The sign is the first one in it. -/
  first : '=' ∉ flag.toList
  /-- It begins with a dash. -/
  dash : argument.toList.head? = some '-'
  /-- The trigger has at least two bytes. -/
  long : 2 ≤ byteLength flag.toList
  /-- The trigger is accepted. -/
  known : isTrigger flag = true
  /-- All characters may stand outside quotes. -/
  safe : ∀ c ∈ argument.toList, isSafe c = true

/-- What the tokens of an argument say. -/
inductive ReadAs (isTrigger : String → Bool) (argument : String) : List String → Prop where
  /-- A joined argument is three tokens. -/
  | joined {flag text : String} (parts : JoinedAs isTrigger argument flag text) :
      ReadAs isTrigger argument [flag, "=", text]
  /-- Any other argument is one token. -/
  | whole (apart : ¬ ∃ flag text, JoinedAs isTrigger argument flag text) :
      ReadAs isTrigger argument [argument]

/-- The characters of a joined argument. -/
theorem JoinedAs.chars (joined : JoinedAs isTrigger argument flag text) :
    argument.toList = flag.toList ++ '=' :: text.toList := by
  have sign : "=".toList = ['='] := by decide
  rw [joined.parts, String.toList_append, String.toList_append, sign, List.append_assoc,
    List.singleton_append]

/-- The trigger of a joined argument begins with the argument's dash. -/
theorem JoinedAs.head (joined : JoinedAs isTrigger argument flag text) :
    flag.toList.head? = some '-' := by
  have dash := joined.dash
  rw [joined.chars] at dash
  cases letters : flag.toList with
  | nil => rw [letters] at dash; simp at dash
  | cons c rest => rw [letters] at dash; simpa using dash

/-- As the dash is one byte, characters that begin with it and have two bytes are two or more. -/
theorem two_le_length_of_dash {letters : List Char} (dash : letters.head? = some '-')
    (long : 2 ≤ byteLength letters) : 2 ≤ letters.length := by
  have one : '-'.utf8Size = 1 := by decide
  match letters with
  | [] => cases dash
  | [c] =>
    obtain rfl : c = '-' := by simpa using dash
    simp [byteLength, one] at long
  | _ :: _ :: _ => simp

/-- The trigger of a joined argument has another character than the dash. -/
theorem JoinedAs.two_le_length (joined : JoinedAs isTrigger argument flag text) :
    2 ≤ flag.toList.length :=
  two_le_length_of_dash joined.head joined.long

/-- A joined argument needs no quoting, so it is bare as a whole. -/
theorem JoinedAs.bareLength_eq (joined : JoinedAs isTrigger argument flag text) :
    bareLength argument.toList = argument.toList.length := by
  have nonempty : argument.toList.isEmpty = false := by simp [joined.chars]
  have each : argument.toList.all isSafe = true := List.all_eq_true.2 joined.safe
  rw [bareLength, isSafeWord, nonempty, each]
  rfl

/-- A joined argument is cut into its trigger, the sign and its text. -/
theorem JoinedAs.tokenTexts_eq (joined : JoinedAs isTrigger argument flag text) :
    tokenTexts isTrigger (argument.toList, bareLength argument.toList) =
      [flag, "=", text] := by
  have known : isTrigger (String.ofList flag.toList) = true := by
    rw [String.ofList_toList]
    exact joined.known
  have inside : flag.toList.length < argument.toList.length := by simp [joined.chars]
  rw [joined.bareLength_eq]
  rw [joined.chars] at inside ⊢
  rw [tokenTexts_joined joined.two_le_length joined.head joined.first known inside,
    String.ofList_toList, String.ofList_toList]

/-- Every character has at least one byte. -/
theorem length_le_byteLength (cs : List Char) : cs.length ≤ byteLength cs := by
  induction cs with
  | nil => exact Nat.le_refl 0
  | cons c rest ih =>
    have positive := c.utf8Size_pos
    rw [List.length_cons, byteLength]
    omega

/-- An argument that is written with an accepted trigger outside quotes joins it and a text. -/
theorem joinedAs_of_trigger? {letters : List Char}
    (found : (⟨0, argument.toList, bareLength argument.toList⟩ : Word).trigger? = some letters)
    (known : isTrigger (String.ofList letters) = true) :
    ∃ flag text, JoinedAs isTrigger argument flag text := by
  obtain ⟨begins, free, long, dash⟩ := trigger?_eq_some found
  -- A quoted argument has no bare part, and a part that is not empty is the whole argument.
  have safe : isSafeWord argument.toList = true := by
    by_contra quoted
    rw [bareLength, if_neg quoted] at begins
    simp at begins
  rw [bareLength, if_pos safe, List.take_length] at begins
  obtain ⟨rest, same⟩ := begins
  rw [isSafeWord, Bool.and_eq_true] at safe
  have parts : argument = String.ofList letters ++ "=" ++ String.ofList rest := by
    apply String.toList_injective
    have sign : "=".toList = ['='] := by decide
    simp only [String.toList_append, String.toList_ofList, sign, same]
  refine ⟨String.ofList letters, String.ofList rest, parts, ?_, ?_, ?_, known, ?_⟩
  · rw [String.toList_ofList]
    exact free
  · rw [← same]
    cases letters with
    | nil => cases dash
    | cons c others => exact dash
  · rw [String.toList_ofList]
    exact Nat.le_trans long (length_le_byteLength letters)
  · exact List.all_eq_true.1 safe.2

/-- An argument that joins no accepted trigger is one token. -/
theorem isWhole_of_not_joined (apart : ¬ ∃ flag text, JoinedAs isTrigger argument flag text) :
    IsWhole isTrigger argument := by
  unfold IsWhole tokenTexts Word.tokens
  split
  · simp
  · next letters found =>
    rw [if_neg]
    · simp
    · intro known
      exact apart (joinedAs_of_trigger? found known)

/-- The tokens of one argument. -/
theorem readAs_tokenTexts (argument : String) :
    ReadAs isTrigger argument
      (tokenTexts isTrigger (argument.toList, bareLength argument.toList)) := by
  by_cases split : ∃ flag text, JoinedAs isTrigger argument flag text
  · obtain ⟨flag, text, joined⟩ := split
    rw [joined.tokenTexts_eq]
    exact .joined joined
  · have whole : tokenTexts isTrigger (argument.toList, bareLength argument.toList) = [argument] :=
      isWhole_of_not_joined split
    rw [whole]
    exact .whole split

/-- A list of arguments, written as one line, is always read, argument by argument: the tokens are
those of the first argument, then those of the second and so on. Where no trigger is accepted, they
are the arguments. -/
theorem arguments_tokenized (isTrigger : String → Bool) (arguments : List String) :
    (∃ tokens groups, tokenizeWith isTrigger (joinArguments arguments) = .ok tokens ∧
      List.Forall₂ (ReadAs isTrigger) arguments groups ∧
      tokens.map Token.text = groups.flatten) ∧
    ∃ tokens, tokenizeWith (fun _ => false) (joinArguments arguments) = .ok tokens ∧
      tokens.map Token.text = arguments := by
  constructor
  · obtain ⟨tokens, scanned, texts⟩ := @tokenizeWith_joinArguments isTrigger arguments
    refine ⟨tokens, _, scanned, ?_, texts.trans List.flatMap_def⟩
    rw [List.forall₂_map_right_iff]
    exact List.forall₂_same.2 fun argument _ => readAs_tokenTexts argument
  · apply tokenizeWith_whole
    intro argument _
    apply isWhole_of_not_joined
    rintro ⟨flag, text, joined⟩
    exact Bool.false_ne_true joined.known

/-- The joined argument is cut at its first sign, the one with a blank is not, and the empty one
is a token too. -/
example : (tokenizeWith ["--set"].contains
    (joinArguments ["--set=a=b", "--set=a b", ""])).toOption.map (·.map Token.text) =
      some ["--set", "=", "a=b", "--set=a b", ""] := by
  decide +kernel

end CommandGrammar.Line
