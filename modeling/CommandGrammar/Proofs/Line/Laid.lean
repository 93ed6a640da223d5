import Mathlib
import CommandGrammar.Proofs.Line.Continuation

/-!
# Where words stand

A line that is read is made of blanks and written words. What a word is written as stands at the
offset of the word and ends at a blank or at the end of the line. It begins with the bare
characters of the word, each as it is, and goes on with the first quote or backslash, if it has
one.
-/

namespace CommandGrammar.Line

/-- A quote or a backslash. -/
def isMark (c : Char) : Bool := c == '\'' || c == '"' || c == '\\'

/-- What a word holds of the text that was read since it was opened. -/
inductive Copies (text : List Char) (word : OpenWord) : Quoting → Prop where
  /-- As long as nothing is quoted it holds the text as it is. -/
  | bare (unquoted : word.quotedFrom = none) (plain : text.all isPlain = true)
      (same : word.reversed.reverse = text) : Copies text word .bare
  /-- Later it begins with what stood before the first mark. -/
  | quoted {front rest : List Char} {mark : Char} {quoting : Quoting} (added : List Char)
      (first : word.quotedFrom = some front.length) (plain : front.all isPlain = true)
      (marked : isMark mark = true) (read : text = front ++ mark :: rest)
      (held : word.reversed.reverse = front ++ added) : Copies text word quoting

/-- Of the characters of a word so many are bare, and what it is written as begins with them. -/
structure Copied (written chars : List Char) (bare : Nat) : Prop where
  /-- The bare characters stand for themselves. -/
  plain : (chars.take bare).all isPlain = true
  /-- They come first. Where nothing follows them, the word has no other characters. -/
  begins : ∃ rest, written = chars.take bare ++ rest ∧ (∀ c ∈ rest.head?, isMark c = true) ∧
    (rest = [] → chars.take bare = chars)

/-- The words of a text that stands so many bytes after the beginning of a line. -/
inductive Laid : Nat → List Char → List Word → Prop where
  /-- An empty text has no words. -/
  | nil (place : Nat) : Laid place [] []
  /-- A blank outside of words has no meaning. -/
  | blank {place : Nat} {c : Char} {rest : List Char} {found : List Word}
      (blank : Text.isBlank c = true) (later : Laid (place + c.utf8Size) rest found) :
      Laid place (c :: rest) found
  /-- A word ends at the end of the text. -/
  | last {place bare : Nat} {written chars : List Char} (copied : Copied written chars bare) :
      Laid place written [⟨place, chars, bare⟩]
  /-- Or it ends at a blank. -/
  | word {place bare : Nat} {written chars rest : List Char} {c : Char} {found : List Word}
      (copied : Copied written chars bare) (blank : Text.isBlank c = true)
      (later : Laid (place + byteLength (written ++ [c])) rest found) :
      Laid place (written ++ c :: rest) (⟨place, chars, bare⟩ :: found)

/-- A word stands in a text: what it is written as begins at its offset and ends at a blank or at
the end of the text. -/
structure Word.StandsIn (word : Word) (place : Nat) (text before written after : List Char) :
    Prop where
  /-- The text is what stands before it, what it is written as, and the rest. -/
  parts : text = before ++ (written ++ after)
  /-- Its offset counts the bytes before it, and those before the text. -/
  offset : word.offset = place + byteLength before
  /-- It begins with its bare characters. -/
  copied : Copied written word.chars word.bare
  /-- It ends there. -/
  apart : ∀ c ∈ after.head?, Text.isBlank c = true

variable {place : Nat} {finished : List Word} {word : OpenWord} {quoting : Quoting} {c : Char}
  {text line : List Char} {found : List Word}

/-! ## One word -/

/-- The marks one by one. -/
theorem isMark_iff : isMark c = true ↔ c = '\'' ∨ c = '"' ∨ c = '\\' := by
  simp [isMark, or_assoc]

/-- A visible character that does not stand for itself is a quote or a backslash. -/
theorem isMark_of_visible (visible : Text.isBlank c = false) (special : isPlain c = false) :
    isMark c = true := by
  rw [isMark_iff]
  by_contra none
  simp only [not_or] at none
  simp [isPlain, visible, none] at special

/-- A quote and a backslash are visible. -/
theorem isBlank_of_isMark (marked : isMark c = true) : Text.isBlank c = false := by
  rcases isMark_iff.1 marked with rfl | rfl | rfl <;> decide

/-- Outside quotes a quote or a backslash quotes what is left of the word. -/
theorem step_mark (marked : isMark c = true) : ∃ next, ∀ place finished word,
    Scan.step ⟨place, finished, some word, .bare⟩ c =
      ⟨place + c.utf8Size, finished, some word.markQuoted, next⟩ := by
  have visible := isBlank_of_isMark marked
  rcases isMark_iff.1 marked with rfl | rfl | rfl
  · exact ⟨.single, fun _ _ _ => by simp [Scan.step, Scan.current, visible]⟩
  · exact ⟨.double, fun _ _ _ => by simp [Scan.step, Scan.current, visible]⟩
  · exact ⟨.escaped, fun _ _ _ => by simp [Scan.step, Scan.current, visible]⟩

/-- A character that does not close the word is read into it. -/
theorem Copies.step (copies : Copies text word quoting)
    (inside : ¬ (quoting = .bare ∧ Text.isBlank c = true)) :
    ∃ next into, Scan.step ⟨place, finished, some word, quoting⟩ c =
        ⟨place + c.utf8Size, finished, some into, next⟩ ∧
      into.offset = word.offset ∧ Copies (text ++ [c]) into next := by
  cases copies with
  | bare unquoted plain same =>
    cases self : isPlain c with
    | true =>
      refine ⟨.bare, word.push c, step_plain self, rfl, .bare unquoted ?_ ?_⟩
      · simp [plain, self]
      · simp [OpenWord.push, same]
    | false =>
      have visible : Text.isBlank c = false := by simpa using inside
      have marked := isMark_of_visible visible self
      obtain ⟨next, steps⟩ := step_mark marked
      refine ⟨next, word.markQuoted, steps _ _ _, rfl,
        .quoted [] ?_ plain marked rfl ?_⟩
      · simp [OpenWord.markQuoted, unquoted, ← same]
      · simp [OpenWord.markQuoted, same]
  | @quoted front rest mark _ added first plain marked read held =>
    have further : text ++ [c] = front ++ mark :: (rest ++ [c]) := by simp [read]
    obtain ⟨next, ⟨more, steps⟩ | steps⟩ := step_open inside
    · refine ⟨next, word.pushAll more, steps _ _ _, rfl,
        .quoted (added ++ more) first plain marked further ?_⟩
      simp [OpenWord.pushAll, held]
    · refine ⟨next, word.markQuoted, steps _ _ _, rfl,
        .quoted added ?_ plain marked further held⟩
      simp [OpenWord.markQuoted, first]

/-- A word whose text can be read to the end of the line is written as a part of it, up to a blank
or the end. -/
theorem exists_written (copies : Copies line word quoting)
    (read : (text.foldl Scan.step ⟨place, finished, some word, quoting⟩).finish = .ok found) :
    ∃ written rest into, text = written ++ rest ∧
      written.foldl Scan.step ⟨place, finished, some word, quoting⟩ =
        ⟨place + byteLength written, finished, some into, .bare⟩ ∧
      into.offset = word.offset ∧ Copies (line ++ written) into .bare ∧
      ∀ c ∈ rest.head?, Text.isBlank c = true := by
  induction text generalizing place word quoting line with
  | nil =>
    cases quoting with
    | bare =>
      refine ⟨[], [], word, rfl, rfl, rfl, ?_, by simp⟩
      rw [List.append_nil]
      exact copies
    | escaped | single | double | doubleEscaped => cases read
  | cons c others ih =>
    by_cases closing : quoting = .bare ∧ Text.isBlank c = true
    · obtain ⟨rfl, blank⟩ := closing
      refine ⟨[], c :: others, word, rfl, rfl, rfl, ?_, by simpa using blank⟩
      rw [List.append_nil]
      exact copies
    · obtain ⟨next, into, steps, same, further⟩ := copies.step closing
      rw [List.foldl_cons, steps] at read
      obtain ⟨written, rest, last, rfl, scans, still, all, apart⟩ := ih further read
      refine ⟨c :: written, rest, last, rfl, ?_, still.trans same, ?_, apart⟩
      · rw [List.foldl_cons, steps, scans, byteLength, Nat.add_assoc]
      · rw [List.append_assoc] at all
        exact all

/-- What a closed word is written as begins with its bare characters. -/
theorem Copies.copied (copies : Copies text word .bare) :
    Copied text word.close.chars word.close.bare := by
  cases copies with
  | bare unquoted plain same =>
    have chars : word.close.chars = text := same
    have whole : word.close.bare = word.close.chars.length := by
      simp [OpenWord.close, unquoted]
    rw [whole, chars]
    refine ⟨?_, [], ?_, by simp, fun _ => List.take_length⟩
    · rw [List.take_length]
      exact plain
    · rw [List.take_length, List.append_nil]
  | @quoted front rest mark _ added first plain marked read held =>
    have all : word.close.chars.take word.close.bare = front := by
      simp [OpenWord.close, first, held]
    exact ⟨all ▸ plain, mark :: rest, by rw [all, read], by simpa using marked, fun none => by
      cases none⟩

/-- A line that begins with a visible character begins with a word. -/
theorem exists_first_word {others : List Char} (visible : Text.isBlank c = false)
    (read : words (c :: others) = .ok found) :
    ∃ written rest chars bare later, c :: others = written ++ rest ∧
      Copied written chars bare ∧ (∀ c ∈ rest.head?, Text.isBlank c = true) ∧
      words rest = .ok later ∧
      found = ⟨0, chars, bare⟩ :: later.map (Word.moved (byteLength written)) := by
  have opened : words (c :: others) = ((c :: others).foldl Scan.step
      ⟨0, [], some (.startingAt 0), .bare⟩).finish := by
    rw [words, Scan.start, List.foldl_cons, List.foldl_cons, step_visible visible]
  rw [opened] at read
  have none_yet : Copies [] (.startingAt 0) .bare := .bare rfl rfl rfl
  obtain ⟨written, rest, into, split, scans, still, copies, apart⟩ := exists_written none_yet read
  rw [split, List.foldl_append, scans, finish_closed apart, Nat.zero_add] at read
  cases after : words rest with
  | error fault =>
    rw [after] at read
    cases read
  | ok later =>
    rw [after] at read
    cases read
    have first : into.offset = 0 := still
    have closed : into.close = ⟨0, into.close.chars, into.close.bare⟩ := by
      simp [OpenWord.close, first]
    exact ⟨written, rest, _, _, later, split, copies.copied, apart, after, by rw [← closed]; rfl⟩

/-! ## All words -/

/-- Words that stand so many bytes further on may be moved at once or twice. -/
theorem map_moved (place bytes : Nat) (found : List Word) :
    (found.map (Word.moved bytes)).map (Word.moved place) =
      found.map (Word.moved (place + bytes)) := by
  simp [Word.moved, Nat.add_assoc]

/-- Behind a blank a line is read as a line of its own. -/
theorem exists_behind_blank {others : List Char} (blank : Text.isBlank c = true)
    (read : words (c :: others) = .ok found) :
    ∃ later, words others = .ok later ∧ found = later.map (Word.moved c.utf8Size) := by
  have none_yet : words [] = .ok [] := rfl
  have behind : words (c :: others) =
      (words others).map fun later => later.map (Word.moved c.utf8Size) :=
    words_across_blank none_yet blank others
  rw [behind] at read
  cases after : words others with
  | error fault =>
    rw [after] at read
    cases read
  | ok later =>
    rw [after] at read
    cases read
    exact ⟨later, rfl, rfl⟩

/-- The words of a line that is read are laid out on it, wherever it stands. -/
theorem laid_of_words (place : Nat) (read : words line = .ok found) :
    Laid place line (found.map (Word.moved place)) := by
  induction size : line.length using Nat.strong_induction_on generalizing place line found with
  | _ size ih =>
    subst size
    cases line with
    | nil =>
      cases read
      exact .nil place
    | cons c others =>
      cases blank : Text.isBlank c with
      | true =>
        obtain ⟨later, after, rfl⟩ := exists_behind_blank blank read
        rw [map_moved]
        exact .blank blank (ih _ (Nat.lt_succ_self _) _ after rfl)
      | false =>
        obtain ⟨written, rest, chars, bare, later, split, copied, apart, after, rfl⟩ :=
          exists_first_word blank read
        rw [split, List.map_cons, map_moved]
        cases rest with
        | nil =>
          cases after
          rw [List.append_nil]
          exact .last copied
        | cons divider more =>
          have divides := apart divider rfl
          obtain ⟨final, behind, rfl⟩ := exists_behind_blank divides after
          have shorter : more.length < (c :: others).length := by
            rw [split, List.length_append, List.length_cons]
            omega
          have further :
              byteLength written + divider.utf8Size = byteLength (written ++ [divider]) := by
            simp [byteLength_append, byteLength]
          rw [map_moved, Nat.add_assoc, further]
          exact .word copied divides (ih _ shorter _ behind rfl)

/-- Each of the words that are laid out on a text stands in it. -/
theorem Laid.exists_standsIn (laid : Laid place text found) {word : Word} (member : word ∈ found) :
    ∃ before written after, word.StandsIn place text before written after := by
  induction laid with
  | nil place => cases member
  | @blank place c rest found _ _ ih =>
    obtain ⟨before, written, after, rfl, offset, copied, apart⟩ := ih member
    exact ⟨c :: before, written, after, rfl, by rw [offset, byteLength, Nat.add_assoc], copied,
      apart⟩
  | @last place bare written chars copied =>
    obtain rfl := List.mem_singleton.1 member
    exact ⟨[], written, [], by simp, rfl, copied, by simp⟩
  | @word place bare written chars rest c found copied blank _ ih =>
    rcases List.mem_cons.1 member with rfl | later
    · exact ⟨[], written, c :: rest, rfl, rfl, copied, by simpa using blank⟩
    · obtain ⟨before, other, after, rfl, offset, copied, apart⟩ := ih later
      refine ⟨written ++ c :: before, other, after, by simp, ?_, copied, apart⟩
      simp [offset, byteLength_append, byteLength, Nat.add_assoc]

end CommandGrammar.Line
