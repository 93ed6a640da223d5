import Mathlib
import CommandGrammar.Proofs.Line.Arguments
import CommandGrammar.Proofs.Options.Reading

/-!
# Joined options as arguments

An argument may join a trigger and a value. It is written with quotes around all of it where any
of its characters needs them, and a trigger between quotes is no trigger. So the argument
is read as the joined form exactly if neither the trigger nor the value needs quoting, and
is one token otherwise.
-/

namespace CommandGrammar.Line

variable {accepted : String → Bool} {trigger : String}

/-- A trigger and a value that need no quoting are joined in their argument. -/
theorem joinedAs_of_safe (formed : isTrigger trigger.toList = true)
    (known : accepted trigger = true) {value : String}
    (safe : (trigger ++ value).toList.all isSafe = true) :
    JoinedAs accepted (trigger ++ "=" ++ value) trigger value := by
  obtain ⟨long, dash, proper⟩ := chars_of_isTrigger formed
  have sign : "=".toList = ['='] := by decide
  have mark : isSafe '=' = true := by decide
  have letters : (trigger ++ "=" ++ value).toList = trigger.toList ++ '=' :: value.toList := by
    rw [String.toList_append, String.toList_append, sign, List.append_assoc,
      List.singleton_append]
  refine ⟨rfl, fun member => (proper '=' member).2 rfl, ?_, ?_, known, ?_⟩
  · rw [letters, List.head?_append, dash]
    rfl
  · exact Nat.le_trans long (length_le_byteLength trigger.toList)
  · intro c member
    rw [letters, List.mem_append, List.mem_cons] at member
    rw [String.toList_append, List.all_append, Bool.and_eq_true] at safe
    rcases member with own | rfl | inside
    · exact List.all_eq_true.1 safe.1 c own
    · exact mark
    · exact List.all_eq_true.1 safe.2 c inside

/-- What the tokens of an argument that is passed alone say. -/
theorem texts_argument (accepted : String → Bool) (argument : String) :
    texts accepted (joinArguments [argument]) =
      .ok (tokenTexts accepted (argument.toList, bareLength argument.toList)) := by
  obtain ⟨tokens, scanned, same⟩ := @tokenizeWith_joinArguments accepted [argument]
  rw [texts, scanned]
  simpa [Except.map] using same

/-- A trigger and a value of which some characters need quoting are not joined in their argument. -/
theorem not_joinedAs {value : String} (needs : (trigger ++ value).toList.all isSafe = false) :
    ¬ ∃ flag text, JoinedAs accepted (trigger ++ "=" ++ value) flag text := by
  rintro ⟨flag, text, joined⟩
  have safe : (trigger ++ "=" ++ value).toList.all isSafe = true :=
    List.all_eq_true.2 joined.safe
  simp only [String.toList_append, List.all_append, Bool.and_eq_true] at safe
  rw [String.toList_append, List.all_append, safe.1.1, safe.2] at needs
  cases needs

/-- An argument that needs quoting is one token. -/
theorem texts_quoted (accepted : String → Bool) {value : String}
    (needs : (trigger ++ value).toList.all isSafe = false) :
    texts accepted (joinArguments [trigger ++ "=" ++ value]) =
      .ok [trigger ++ "=" ++ value] := by
  have whole : tokenTexts accepted _ = [trigger ++ "=" ++ value] :=
    isWhole_of_not_joined (not_joinedAs needs)
  rw [texts_argument, whole]

/-- An argument that joins an accepted trigger and a value is read as the trigger, the sign and the
value exactly if all characters of both are safe. If some are not it is one token. -/
theorem joined_argument_read (accepted : String → Bool) {trigger : String}
    (formed : isTrigger trigger.toList = true) (known : accepted trigger = true)
    (value : String) :
    (texts accepted (joinArguments [trigger ++ "=" ++ value]) = .ok [trigger, "=", value] ↔
        (trigger ++ value).toList.all isSafe = true) ∧
      ((trigger ++ value).toList.all isSafe = false →
        texts accepted (joinArguments [trigger ++ "=" ++ value]) =
          .ok [trigger ++ "=" ++ value]) := by
  refine ⟨⟨fun read => ?_, fun safe => ?_⟩, texts_quoted accepted⟩
  · by_contra refused
    rw [texts_quoted accepted (Bool.eq_false_iff.2 refused)] at read
    simp at read
  · rw [texts_argument, (joinedAs_of_safe formed known safe).tokenTexts_eq]

/-- A value without blank is read, and the same option with a blank in its value is kept whole. -/
theorem name_argument_read : isTrigger "--name".toList = true ∧
    texts ["--name"].contains (joinArguments ["--name" ++ "=" ++ "Ada=1"]) =
      .ok ["--name", "=", "Ada=1"] ∧
    texts ["--name"].contains (joinArguments ["--name" ++ "=" ++ "Ada Lovelace"]) =
      .ok ["--name" ++ "=" ++ "Ada Lovelace"] := by
  have formed : isTrigger "--name".toList = true := by decide
  have known : ["--name"].contains "--name" = true := by decide
  exact ⟨formed, (joined_argument_read _ formed known "Ada=1").1.2 (by decide +kernel),
    (joined_argument_read _ formed known "Ada Lovelace").2 (by decide +kernel)⟩

/-- Not every value of an accepted trigger is read when both are passed as one argument. -/
theorem spaced_value_kept_whole : isTrigger "--name".toList = true ∧
    ["--name"].contains "--name" = true ∧
    joinArguments ["--name=Ada Lovelace"] = "'--name=Ada Lovelace'" ∧
    texts ["--name"].contains (joinArguments ["--name=Ada Lovelace"]) =
      .ok ["--name=Ada Lovelace"] ∧
    texts ["--name"].contains (joinArguments ["--name=Ada Lovelace"]) ≠
      .ok ["--name", "=", "Ada Lovelace"] := by
  decide +kernel

end CommandGrammar.Line
