import Mathlib
import CommandGrammar.Line.Quote
import CommandGrammar.Line.Token

/-!
# Written words

A word of a line is written as characters that stand for themselves, as a quoted text, or
as the former followed by the latter. Scanning it from between words reads back its
characters and how many of them are bare, wherever on the line it stands; words with a
space between them are read one by one.
-/

namespace CommandGrammar.Line

/-- A character that stands for itself outside quotes. -/
def isPlain (c : Char) : Bool := !Text.isBlank c && c != '\'' && c != '"' && c != '\\'

/-- Among the ASCII characters the safe ones are plain. -/
theorem isPlain_of_isSafe_ascii :
    ∀ code < 128, isSafe (Char.ofNat code) = true → isPlain (Char.ofNat code) = true := by
  decide +kernel

/-- Safe characters are ASCII characters. -/
theorem isSafe_lt {c : Char} (safe : isSafe c = true) : c.toNat < 128 := by
  have marks : "-_@%+=:,./".toList.all (·.toNat < 128) = true := by decide
  rw [isSafe, Bool.or_eq_true, List.contains_iff_mem] at safe
  rcases safe with letter | mark
  · simp only [Char.isAlphanum, Char.isAlpha, Char.isUpper, Char.isLower, Char.isDigit,
      Bool.or_eq_true, Bool.and_eq_true, decide_eq_true_eq, UInt32.le_iff_toNat_le,
      ge_iff_le] at letter
    have upper : 'Z'.val.toNat < 128 ∧ 'z'.val.toNat < 128 ∧ '9'.val.toNat < 128 := by decide
    change c.val.toNat < 128
    omega
  · simpa using List.all_eq_true.1 marks c mark

/-- Safe characters are plain. -/
theorem isPlain_of_isSafe {c : Char} (safe : isSafe c = true) : isPlain c = true := by
  have plain := isPlain_of_isSafe_ascii c.toNat (isSafe_lt safe)
  rw [Char.ofNat_toNat] at plain
  exact plain safe

/-- Adds several characters to the word. -/
def OpenWord.pushAll (word : OpenWord) (cs : List Char) : OpenWord :=
  { word with reversed := cs.reverse ++ word.reversed }

variable {offset : Nat} {finished : List Word} {word : OpenWord} {cs : List Char}

/-- Characters are added one after the other. -/
theorem OpenWord.pushAll_cons {c : Char} : word.pushAll (c :: cs) = (word.push c).pushAll cs := by
  simp [pushAll, push]

/-- A character that stands for itself is added to the word. -/
theorem step_plain {c : Char} (plain : isPlain c = true) :
    Scan.step ⟨offset, finished, some word, .bare⟩ c =
      ⟨offset + c.utf8Size, finished, some (word.push c), .bare⟩ := by
  simp only [isPlain, Bool.and_eq_true, Bool.not_eq_true', bne_iff_ne] at plain
  simp [Scan.step, Scan.current, plain.1.1.1, plain.1.1.2, plain.1.2, plain.2]

/-- Characters that stand for themselves are added to the word. -/
theorem scan_plain (plain : cs.all isPlain = true) :
    cs.foldl Scan.step ⟨offset, finished, some word, .bare⟩ =
      ⟨offset + byteLength cs, finished, some (word.pushAll cs), .bare⟩ := by
  induction cs generalizing offset word with
  | nil => rfl
  | cons c rest ih =>
    rw [List.all_cons, Bool.and_eq_true] at plain
    rw [List.foldl_cons, step_plain plain.1, ih plain.2, OpenWord.pushAll_cons, byteLength,
      Nat.add_assoc]

/-- The bytes of characters and further ones. -/
theorem byteLength_append {others : List Char} :
    byteLength (cs ++ others) = byteLength cs + byteLength others := by
  induction cs with
  | nil => simp [byteLength]
  | cons c rest ih => simp [byteLength, ih, Nat.add_assoc]

/-- How a character is written between single quotes. -/
def requoted (c : Char) : List Char := if c = '\'' then "'\"'\"'".toList else [c]

/-- A character written between single quotes is added to the word. -/
theorem scan_requoted {bare : Nat} (quoted : word.quotedFrom = some bare) (c : Char) :
    (requoted c).foldl Scan.step ⟨offset, finished, some word, .single⟩ =
      ⟨offset + byteLength (requoted c), finished, some (word.push c), .single⟩ := by
  unfold requoted
  by_cases quote : c = '\''
  · have letters : "'\"'\"'".toList = ['\'', '"', '\'', '"', '\''] := by decide
    have blank : Text.isBlank '"' = false ∧ Text.isBlank '\'' = false := by decide
    simp [quote, letters, Scan.step, Scan.current, OpenWord.markQuoted, OpenWord.push, quoted,
      blank, byteLength, Nat.add_assoc]
  · simp [quote, Scan.step, byteLength, Scan.current]

/-- Characters written between single quotes are added to the word. -/
theorem scan_inside {bare : Nat} (quoted : word.quotedFrom = some bare) :
    (cs.flatMap requoted).foldl Scan.step ⟨offset, finished, some word, .single⟩ =
      ⟨offset + byteLength (cs.flatMap requoted), finished, some (word.pushAll cs), .single⟩ := by
  induction cs generalizing offset word with
  | nil => rfl
  | cons c rest ih =>
    have later : (word.push c).quotedFrom = some bare := quoted
    rw [List.flatMap_cons, List.foldl_append, scan_requoted quoted, ih later, byteLength_append,
      OpenWord.pushAll_cons, Nat.add_assoc]

/-- A text between single quotes is added to the word, as quoted. -/
theorem scan_quoted :
    (quotedChars cs).foldl Scan.step ⟨offset, finished, some word, .bare⟩ =
      ⟨offset + byteLength (quotedChars cs), finished, some (word.markQuoted.pushAll cs),
        .bare⟩ := by
  have written : quotedChars cs = ('\'' :: cs.flatMap requoted) ++ ['\''] := rfl
  have marked : ∃ bare, word.markQuoted.quotedFrom = some bare := by
    unfold OpenWord.markQuoted
    cases word.quotedFrom <;> simp
  obtain ⟨bare, quoted⟩ := marked
  have first : Scan.step ⟨offset, finished, some word, .bare⟩ '\'' =
      ⟨offset + '\''.utf8Size, finished, some word.markQuoted, .single⟩ := by
    have blank : Text.isBlank '\'' = false := by decide
    simp [Scan.step, Scan.current, blank]
  have last (place : Nat) (held : OpenWord) :
      Scan.step ⟨place, finished, some held, .single⟩ '\'' =
        ⟨place + '\''.utf8Size, finished, some held, .bare⟩ := by
    simp [Scan.step]
  simp only [written, List.foldl_append, List.foldl_cons, List.foldl_nil, first,
    scan_inside quoted, last, byteLength_append, byteLength, Nat.add_zero, Nat.add_assoc]

/-- How many of the characters of a quoted text are bare. -/
def bareLength (text : List Char) : Nat := if isSafeWord text then text.length else 0

/-- A written text: scanned as a new word from wherever it stands, it leaves the word open with some
characters of which some number are bare. -/
structure Writes (written chars : List Char) (bare : Nat) : Prop where
  /-- It begins with no blank. -/
  begins : ∃ c rest, written = c :: rest ∧ Text.isBlank c = false
  /-- What scanning it leaves. -/
  scans : ∀ offset finished, ∃ word, written.foldl Scan.step
      ⟨offset, finished, some (.startingAt offset), .bare⟩ =
        ⟨offset + byteLength written, finished, some word, .bare⟩ ∧
      word.close = ⟨offset, chars, bare⟩

/-- Plain characters stand for no blank. -/
theorem isBlank_of_isPlain {c : Char} (plain : isPlain c = true) : Text.isBlank c = false := by
  simp only [isPlain, Bool.and_eq_true, Bool.not_eq_true'] at plain
  exact plain.1.1.1

/-- Plain characters and a quoted text after them. -/
theorem writes_quote {bare : List Char} (plain : bare.all isPlain = true) (text : String) :
    Writes (bare ++ (quote text).toList) (bare ++ text.toList)
      (bare.length + bareLength text.toList) := by
  constructor
  · cases bare with
    | cons c rest =>
      exact ⟨c, _, rfl, isBlank_of_isPlain (List.all_eq_true.1 plain c List.mem_cons_self)⟩
    | nil =>
      unfold quote
      split
      · next safe =>
        rw [isSafeWord, Bool.and_eq_true] at safe
        cases chars : text.toList with
        | nil => simp [chars] at safe
        | cons c rest =>
          rw [chars] at safe
          have first := List.all_eq_true.1 safe.2 c List.mem_cons_self
          exact ⟨c, rest, rfl, isBlank_of_isPlain (isPlain_of_isSafe first)⟩
      · exact ⟨'\'', _, by rw [List.nil_append, String.toList_ofList]; rfl, by decide⟩
  · intro offset finished
    rw [List.foldl_append, scan_plain plain, byteLength_append, ← Nat.add_assoc]
    unfold quote bareLength
    split
    · next safe =>
      rw [isSafeWord, Bool.and_eq_true] at safe
      have each : text.toList.all isPlain = true :=
        List.all_eq_true.2 fun c member => isPlain_of_isSafe (List.all_eq_true.1 safe.2 c member)
      refine ⟨_, scan_plain each, ?_⟩
      simp [OpenWord.close, OpenWord.pushAll, OpenWord.startingAt, Nat.add_comm]
    · rw [String.toList_ofList]
      refine ⟨_, scan_quoted, ?_⟩
      simp [OpenWord.close, OpenWord.pushAll, OpenWord.startingAt, OpenWord.markQuoted]

/-- A written text opens a word where none is open. -/
theorem Writes.opens {written chars : List Char} {bare : Nat} (writes : Writes written chars bare)
    (offset : Nat) (finished : List Word) :
    ∃ word, written.foldl Scan.step ⟨offset, finished, none, .bare⟩ =
        ⟨offset + byteLength written, finished, some word, .bare⟩ ∧
      word.close = ⟨offset, chars, bare⟩ := by
  obtain ⟨word, scanned, closed⟩ := writes.scans offset finished
  obtain ⟨c, rest, rfl, blank⟩ := writes.begins
  refine ⟨word, ?_, closed⟩
  rw [← scanned, List.foldl_cons, List.foldl_cons]
  congr 1
  simp only [Scan.step, blank, Scan.current]
  rfl

/-- Written texts with a space between them are read one by one. -/
theorem scan_join {texts : List String} {shapes : List (List Char × Nat)}
    (writes : List.Forall₂ (fun text shape => Writes text.toList shape.1 shape.2) texts shapes)
    (offset : Nat) (finished : List Word) :
    ∃ (scan : Scan) (found : List Word),
      (Text.join " " texts).toList.foldl Scan.step ⟨offset, finished, none, .bare⟩ = scan ∧
        scan.quoting = .bare ∧ scan.closed.reverse = finished.reverse ++ found ∧
        found.map (fun word => (word.chars, word.bare)) = shapes := by
  induction writes generalizing offset finished with
  | nil => exact ⟨_, [], rfl, rfl, by simp [Text.join, Scan.closed], rfl⟩
  | @cons text shape texts shapes head tail ih =>
    obtain ⟨word, scanned, closed⟩ := head.opens offset finished
    cases texts with
    | nil =>
      cases tail
      refine ⟨_, [word.close], scanned, rfl, by simp [Scan.closed], ?_⟩
      simp [closed]
    | cons next others =>
      have blank : Scan.step ⟨offset + byteLength text.toList, finished, some word, .bare⟩ ' ' =
          ⟨offset + byteLength text.toList + ' '.utf8Size, word.close :: finished, none,
            .bare⟩ := by
        have space : Text.isBlank ' ' = true := by decide
        simp [Scan.step, space, Scan.closed]
      obtain ⟨scan, found, same, outside, all, shape⟩ :=
        ih (offset + byteLength text.toList + ' '.utf8Size) (word.close :: finished)
      refine ⟨scan, word.close :: found, ?_, outside, by simp [all], by simp [closed, shape]⟩
      have joined : (Text.join " " (text :: next :: others)).toList =
          text.toList ++ ' ' :: (Text.join " " (next :: others)).toList := by
        simp [Text.join]
      rw [joined, List.foldl_append, scanned, List.foldl_cons, blank, same]

/-- The words of a line of written texts. -/
theorem words_join {texts : List String} {shapes : List (List Char × Nat)}
    (writes : List.Forall₂ (fun text shape => Writes text.toList shape.1 shape.2) texts shapes) :
    ∃ found, words (Text.join " " texts).toList = .ok found ∧
      found.map (fun word => (word.chars, word.bare)) = shapes := by
  obtain ⟨scan, found, same, outside, all, shape⟩ := scan_join writes 0 []
  refine ⟨found, ?_, shape⟩
  have scanned : (Text.join " " texts).toList.foldl Scan.step Scan.start = scan := same
  rw [words, scanned, Scan.finish, outside]
  simpa using all

end CommandGrammar.Line
