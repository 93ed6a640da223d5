import Mathlib
import CommandGrammar.Proofs.Line.Words

/-!
# Lines put together at a blank

What a scan does next depends on the quoting and on the word that is open, and on nothing
else: bytes that were read and words that were finished before are carried along. A line that is read
ends outside quotes, so a blank after it leaves no word open and whatever follows is
scanned as a line of its own, so many bytes further on.
-/

namespace CommandGrammar.Line

/-- The word in a line with so many more bytes in front. -/
def Word.moved (bytes : Nat) (word : Word) : Word := { word with offset := bytes + word.offset }

/-- The open word in a line with so many more bytes in front. -/
def OpenWord.moved (bytes : Nat) (word : OpenWord) : OpenWord :=
  { word with offset := bytes + word.offset }

/-- The token in a line with so many more bytes in front. -/
def Token.moved (bytes : Nat) (token : Token) : Token :=
  { token with offset := bytes + token.offset }

/-- The scan in a line with so many more bytes and some words in front. -/
def Scan.after (bytes : Nat) (words : List Word) (scan : Scan) : Scan :=
  ⟨bytes + scan.offset, scan.finished.map (Word.moved bytes) ++ words,
    scan.word.map (OpenWord.moved bytes), scan.quoting⟩

variable {bytes : Nat} {earlier : List Word} {scan : Scan}

/-- A moved open word is closed to the moved word. -/
theorem close_moved (word : OpenWord) : (word.moved bytes).close = word.close.moved bytes := rfl

/-- What is finished and open stays so when it is moved. -/
theorem closed_after :
    (scan.after bytes earlier).closed = scan.closed.map (Word.moved bytes) ++ earlier := by
  unfold Scan.closed Scan.after
  cases scan.word with
  | none => rfl
  | some word => simp [close_moved]

/-- A word is open, or opened, at the moved place. -/
theorem current_after : (scan.after bytes earlier).current = scan.current.moved bytes := by
  unfold Scan.current Scan.after
  cases scan.word <;> rfl

/-- A character is read in the same way after more bytes and words. -/
theorem step_after (c : Char) :
    (scan.after bytes earlier).step c = (scan.step c).after bytes earlier := by
  have quoting : (scan.after bytes earlier).quoting = scan.quoting := rfl
  have offset : (scan.after bytes earlier).offset + c.utf8Size =
      bytes + (scan.offset + c.utf8Size) := Nat.add_assoc _ _ _
  unfold Scan.step
  simp only [quoting, offset, current_after, closed_after]
  cases scan.quoting <;> simp only <;> split_ifs <;> rfl

/-- Characters are read in the same way after more bytes and words. -/
theorem foldl_after (line : List Char) :
    line.foldl Scan.step (scan.after bytes earlier) =
      (line.foldl Scan.step scan).after bytes earlier := by
  induction line generalizing scan with
  | nil => rfl
  | cons c rest ih => rw [List.foldl_cons, List.foldl_cons, step_after, ih]

/-- The words in front come first at the end of the line. -/
theorem finish_after : (scan.after bytes earlier).finish =
    scan.finish.map fun found => earlier.reverse ++ found.map (Word.moved bytes) := by
  have quoting : (scan.after bytes earlier).quoting = scan.quoting := rfl
  unfold Scan.finish
  rw [quoting, closed_after]
  cases scan.quoting <;> simp [Except.map]

/-- The state after a line. -/
def Scan.ofLine (line : List Char) : Scan := line.foldl Scan.step .start

/-- A line is read on from the state after its first part. -/
theorem words_append (line text : List Char) :
    words (line ++ text) = (text.foldl Scan.step (Scan.ofLine line)).finish := by
  rw [words, List.foldl_append]
  rfl

/-- A character is as many bytes further on. -/
theorem offset_step (c : Char) : (scan.step c).offset = scan.offset + c.utf8Size := by
  unfold Scan.step
  cases scan.quoting <;> simp only <;> split_ifs <;> rfl

/-- The state after a line stands behind the bytes of the line. -/
theorem offset_foldl (line : List Char) :
    (line.foldl Scan.step scan).offset = scan.offset + byteLength line := by
  induction line generalizing scan with
  | nil => rfl
  | cons c rest ih => rw [List.foldl_cons, ih, offset_step, byteLength, Nat.add_assoc]

/-- A line is read exactly if it ends outside quotes, and its words are the finished ones and the
open one. -/
theorem words_eq_ok_iff {line : List Char} {found : List Word} :
    words line = .ok found ↔
      (Scan.ofLine line).quoting = .bare ∧ (Scan.ofLine line).closed.reverse = found := by
  change (Scan.ofLine line).finish = _ ↔ _
  unfold Scan.finish
  cases (Scan.ofLine line).quoting <;> simp

/-- A blank after a line that is read leaves no word open. -/
theorem step_blank {line : List Char} {found : List Word} (read : words line = .ok found) {c : Char}
    (blank : Text.isBlank c = true) :
    (Scan.ofLine line).step c =
      Scan.start.after (byteLength (line ++ [c])) (Scan.ofLine line).closed := by
  have quoting := (words_eq_ok_iff.1 read).1
  have place : (Scan.ofLine line).offset + c.utf8Size = byteLength (line ++ [c]) := by
    rw [Scan.ofLine, offset_foldl, byteLength_append]
    simp [Scan.start, byteLength]
  simp [Scan.step, quoting, blank, place, Scan.after, Scan.start]

/-- The words of lines with a blank between them: those of the first line and those of the other
one, which stand as many bytes further on. -/
theorem words_across_blank {line : List Char} {found : List Word} (read : words line = .ok found)
    {c : Char} (blank : Text.isBlank c = true) (others : List Char) :
    words (line ++ c :: others) = (words others).map fun later =>
      found ++ later.map (Word.moved (byteLength (line ++ [c]))) := by
  rw [words_append, List.foldl_cons, step_blank read blank, foldl_after, finish_after,
    (words_eq_ok_iff.1 read).2]
  rfl

/-- The tokens of a moved word are moved as it is. -/
theorem tokens_moved (accepted : String → Bool) (word : Word) :
    (word.moved bytes).tokens accepted = (word.tokens accepted).map (Token.moved bytes) := by
  have same : (word.moved bytes).trigger? = word.trigger? := rfl
  unfold Word.tokens
  rw [same]
  simp only
  cases word.trigger? with
  | none => rfl
  | some flag =>
    simp only
    split
    · simp [Token.moved, Word.moved, Nat.add_assoc]
    · rfl

/-- The bytes of a text are those of its characters. -/
theorem byteLength_toList (text : String) : byteLength text.toList = text.utf8ByteSize := by
  have counted (cs : List Char) : byteLength cs = String.utf8Len cs := by
    induction cs with
    | nil => rfl
    | cons c rest ih => rw [byteLength, String.utf8Len_cons, ih, Nat.add_comm]
  rw [counted, ← String.utf8ByteSize_ofList, String.ofList_toList]

/-- The tokens of a line that is read, a blank, and any text: first those of the line as they are,
then those of the text, as many bytes further on as stand before it. Where the text cannot be
read, the whole cannot be for the same reason. -/
theorem tokens_across_blank (accepted : String → Bool) {line : String} {first : List Token}
    (read : tokenizeWith accepted line = .ok first) {c : Char} (blank : Text.isBlank c = true)
    (text : String) :
    tokenizeWith accepted (line.push c ++ text) =
      (tokenizeWith accepted text).map fun tokens =>
        first ++ tokens.map (Token.moved (line.push c).utf8ByteSize) := by
  have letters : (line.push c ++ text).toList = line.toList ++ c :: text.toList := by simp
  have place : byteLength (line.toList ++ [c]) = (line.push c).utf8ByteSize := by
    rw [← byteLength_toList, String.toList_push]
  unfold tokenizeWith at read ⊢
  cases scanned : words line.toList with
  | error fault =>
    rw [scanned] at read
    cases read
  | ok found =>
    rw [scanned] at read
    cases read
    rw [letters, words_across_blank scanned blank, place]
    cases words text.toList with
    | error fault => rfl
    | ok later => simp [Except.map, tokens_moved, List.flatMap_map, List.map_flatMap]

/-- A no-break space is a blank of two bytes: behind a quoted word it divides the line, whether what
follows can be read or not. -/
theorem order_across_blank : Text.isBlank '\u00a0' = true ∧
    tokenizeWith ["--size"].contains "say 'tea ü'" = .ok [⟨"say", 0⟩, ⟨"tea ü", 4⟩] ∧
    tokenizeWith ["--size"].contains ("say 'tea ü'".push '\u00a0' ++ "--size=2 ''") =
      .ok [⟨"say", 0⟩, ⟨"tea ü", 4⟩, ⟨"--size", 14⟩, ⟨"=", 20⟩, ⟨"2", 21⟩, ⟨"", 23⟩] ∧
    tokenizeWith ["--size"].contains ("say 'tea ü'".push '\u00a0' ++ "\"big") =
      .error .unterminatedDoubleQuote := by
  have blank : Text.isBlank '\u00a0' = true := by decide
  have read : tokenizeWith ["--size"].contains "say 'tea ü'" = .ok [⟨"say", 0⟩, ⟨"tea ü", 4⟩] := by
    decide +kernel
  refine ⟨blank, read, ?_, ?_⟩
  · rw [tokens_across_blank _ read blank]
    decide +kernel
  · rw [tokens_across_blank _ read blank]
    decide +kernel

end CommandGrammar.Line
