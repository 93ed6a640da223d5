import Mathlib
import CommandGrammar.Proofs.Line.Blanks
import CommandGrammar.Proofs.Line.Tokens

/-!
# Lines that are continued

A backslash before a line feed stands for nothing, so that a command may be written on several
lines. Outside quotes it is not without a trace: the backslash opens a word if none is open, and
it quotes what is left of the word. Between words an empty word is made; inside a word, or at an
end of it, the word keeps its characters, and a trigger whose equals sign comes later is joined
no more.
-/

namespace CommandGrammar.Line

/-- The word with no more than so many bare characters. -/
def Word.narrowed (limit : Nat) (word : Word) : Word := { word with bare := min limit word.bare }

/-- The open word, quoted after so many characters at the latest. -/
def OpenWord.narrowed (limit : Nat) (word : OpenWord) : OpenWord :=
  { word with quotedFrom := some (min limit (word.quotedFrom.getD word.reversed.length)) }

/-- As long as nothing in the word is quoted it has so many characters. -/
def OpenWord.Reaches (limit : Nat) (word : OpenWord) : Prop :=
  word.quotedFrom = none → limit ≤ word.reversed.length

/-- No word is open after the line, and none begins with the text after it. -/
def Apart (line text : List Char) : Prop :=
  (Scan.ofLine line).word = none ∧ ∀ c ∈ text.head?, Text.isBlank c = true

instance (line text : List Char) : Decidable (Apart line text) :=
  inferInstanceAs (Decidable (_ ∧ _))

variable {place bytes limit : Nat} {finished : List Word} {word : OpenWord} {quoting : Quoting}
  {c : Char} {line text : List Char}

/-! ## The word at which a line is continued -/

/-- Inside a word a character adds characters to it or quotes what is left of it, whatever word it
is. -/
theorem step_open (inside : ¬ (quoting = .bare ∧ Text.isBlank c = true)) :
    ∃ next, (∃ added, ∀ place finished word, Scan.step ⟨place, finished, some word, quoting⟩ c =
        ⟨place + c.utf8Size, finished, some (word.pushAll added), next⟩) ∨
      ∀ place finished word, Scan.step ⟨place, finished, some word, quoting⟩ c =
        ⟨place + c.utf8Size, finished, some word.markQuoted, next⟩ := by
  have kept (word : OpenWord) : word.pushAll [] = word := rfl
  have one (word : OpenWord) : word.pushAll [c] = word.push c := rfl
  have two (word : OpenWord) : word.pushAll ['\\', c] = (word.push '\\').push c := rfl
  cases quoting with
  | bare =>
    have visible : Text.isBlank c = false := by simpa using inside
    by_cases mark : c = '\'' ∨ c = '"' ∨ c = '\\'
    · rcases mark with rfl | rfl | rfl
      · exact ⟨.single, .inr fun _ _ _ => by simp [Scan.step, Scan.current, visible]⟩
      · exact ⟨.double, .inr fun _ _ _ => by simp [Scan.step, Scan.current, visible]⟩
      · exact ⟨.escaped, .inr fun _ _ _ => by simp [Scan.step, Scan.current, visible]⟩
    · obtain ⟨single, double, backslash⟩ := not_or.1 mark |>.imp_right not_or.1
      exact ⟨.bare, .inl ⟨[c], fun _ _ _ => by
        simp [Scan.step, Scan.current, visible, single, double, backslash, one]⟩⟩
  | escaped =>
    by_cases feed : c = '\n'
    · exact ⟨.bare, .inl ⟨[], fun _ _ _ => by simp [Scan.step, feed, kept]⟩⟩
    · exact ⟨.bare, .inl ⟨[c], fun _ _ _ => by simp [Scan.step, Scan.current, feed, one]⟩⟩
  | single =>
    by_cases ends : c = '\''
    · exact ⟨.bare, .inl ⟨[], fun _ _ _ => by simp [Scan.step, ends, kept]⟩⟩
    · exact ⟨.single, .inl ⟨[c], fun _ _ _ => by simp [Scan.step, Scan.current, ends, one]⟩⟩
  | double =>
    by_cases ends : c = '"'
    · exact ⟨.bare, .inl ⟨[], fun _ _ _ => by simp [Scan.step, ends, kept]⟩⟩
    · by_cases backslash : c = '\\'
      · exact ⟨.doubleEscaped, .inl ⟨[], fun _ _ _ => by simp [Scan.step, backslash, kept]⟩⟩
      · exact ⟨.double, .inl ⟨[c], fun _ _ _ => by
          simp [Scan.step, Scan.current, ends, backslash, one]⟩⟩
  | doubleEscaped =>
    by_cases quoted : quotedInDouble c = true
    · exact ⟨.double, .inl ⟨[c], fun _ _ _ => by simp [Scan.step, Scan.current, quoted, one]⟩⟩
    · by_cases feed : c = '\n'
      · exact ⟨.double, .inl ⟨[], fun _ _ _ => by
          have plain : quotedInDouble '\n' = false := by decide
          simp [Scan.step, feed, plain, kept]⟩⟩
      · exact ⟨.double, .inl ⟨['\\', c], fun _ _ _ => by
          simp [Scan.step, Scan.current, quoted, feed, two]⟩⟩

/-- Further characters leave a word quoted from where it was. -/
theorem pushAll_narrowed (reaches : word.Reaches limit) (added : List Char) :
    (word.pushAll added).narrowed limit = (word.narrowed limit).pushAll added ∧
      (word.pushAll added).Reaches limit := by
  unfold OpenWord.Reaches at reaches ⊢
  unfold OpenWord.narrowed OpenWord.pushAll
  cases quoted : word.quotedFrom with
  | none =>
    have enough := reaches quoted
    simp only [List.length_append, List.length_reverse, Option.getD_none]
    exact ⟨by congr 2; omega, fun _ => by omega⟩
  | some bare => simp

/-- A word that is quoted somewhere is quoted from where it was. -/
theorem markQuoted_narrowed : word.markQuoted.narrowed limit = (word.narrowed limit).markQuoted ∧
    word.markQuoted.Reaches limit := by
  unfold OpenWord.Reaches OpenWord.narrowed OpenWord.markQuoted
  cases word.quotedFrom <;> simp

/-- A word of which nothing is quoted has as many characters as it has bare ones. -/
theorem OpenWord.reaches_close (word : OpenWord) : word.Reaches word.close.bare := by
  intro bare
  simp [OpenWord.close, bare]

/-- To quote what is left of a word is to quote it after the bare characters it has. -/
theorem markQuoted_eq (word : OpenWord) : word.markQuoted = word.narrowed word.close.bare := by
  unfold OpenWord.narrowed OpenWord.markQuoted OpenWord.close
  cases word.quotedFrom <;> simp

/-- A blank, or the end of the line, closes the word that is open. -/
theorem finish_closed (blank : ∀ c ∈ text.head?, Text.isBlank c = true) :
    (text.foldl Scan.step ⟨place, finished, some word, .bare⟩).finish =
      (words text).map fun later =>
        finished.reverse ++ word.close :: later.map (Word.moved place) := by
  have closed : (text.foldl Scan.step ⟨place, finished, some word, .bare⟩).finish =
      (text.foldl Scan.step (Scan.start.after place (word.close :: finished))).finish := by
    cases text with
    | nil => rfl
    | cons c rest =>
      have first := blank c rfl
      rw [List.foldl_cons, List.foldl_cons]
      congr 2
      simp [Scan.step, Scan.after, Scan.start, Scan.closed, first]
  rw [closed, foldl_after, finish_after]
  simp [words]

/-- A word that was quoted at some place while it was open stays so: the words behind it are the
same, only further on, and where the line cannot be read the reason is the same. -/
theorem finish_narrowed (reaches : word.Reaches limit) (text : List Char) :
    ∃ (joint : Word) (later : Except LexFault (List Word)) (behind : Nat),
      (text.foldl Scan.step ⟨place, finished, some word, quoting⟩).finish =
        later.map (fun found => finished.reverse ++ joint :: found.map (Word.moved behind)) ∧
      (text.foldl Scan.step
          ⟨bytes + place, finished, some (word.narrowed limit), quoting⟩).finish =
        later.map fun found =>
          finished.reverse ++ joint.narrowed limit :: found.map (Word.moved (bytes + behind)) := by
  induction text generalizing place word quoting with
  | nil =>
    cases quoting with
    | bare => exact ⟨word.close, .ok [], 0, by simp [Scan.finish, Scan.closed, Except.map], by
        simp [Scan.finish, Scan.closed, Except.map]; rfl⟩
    | escaped => exact ⟨word.close, .error .danglingEscape, 0, rfl, rfl⟩
    | single => exact ⟨word.close, .error .unterminatedSingleQuote, 0, rfl, rfl⟩
    | double => exact ⟨word.close, .error .unterminatedDoubleQuote, 0, rfl, rfl⟩
    | doubleEscaped => exact ⟨word.close, .error .unterminatedDoubleQuote, 0, rfl, rfl⟩
  | cons c rest ih =>
    by_cases closing : quoting = .bare ∧ Text.isBlank c = true
    · obtain ⟨rfl, blank⟩ := closing
      have head : ∀ first ∈ (c :: rest).head?, Text.isBlank first = true := by simpa using blank
      exact ⟨word.close, words (c :: rest), place, finish_closed head, finish_closed head⟩
    · rw [List.foldl_cons, List.foldl_cons]
      obtain ⟨next, ⟨added, steps⟩ | steps⟩ := step_open closing
      · obtain ⟨same, further⟩ := pushAll_narrowed reaches added
        rw [steps, steps, ← same, Nat.add_assoc]
        exact ih further
      · obtain ⟨same, further⟩ := @markQuoted_narrowed limit word
        rw [steps, steps, ← same, Nat.add_assoc]
        exact ih further

/-! ## Words of a continued line -/

/-- A backslash and a line feed outside quotes open a word if none is open, and quote what is left
of it. -/
theorem step_continued (outside : quoting = .bare) (open? : Option OpenWord) :
    (Scan.step ⟨place, finished, open?, quoting⟩ '\\').step '\n' =
      ⟨2 + place, finished, some (open?.getD (.startingAt place)).markQuoted, .bare⟩ := by
  have sizes : '\\'.utf8Size = 1 ∧ '\n'.utf8Size = 1 := by decide
  have visible : Text.isBlank '\\' = false := by decide
  subst outside
  simp [Scan.step, Scan.current, visible, sizes]
  omega

/-- A visible character opens a word if none is open. -/
theorem step_visible (visible : Text.isBlank c = false) :
    Scan.step ⟨place, finished, none, .bare⟩ c =
      Scan.step ⟨place, finished, some (.startingAt place), .bare⟩ c := by
  simp only [Scan.step, visible, Scan.current]
  rfl

/-- How many characters of the word at the end of the line are bare; none if no word is open. -/
def bareHeld (line : List Char) : Nat := (Scan.ofLine line).current.close.bare

/-- The words before the one at the end of the line. -/
def wordsBefore (line : List Char) : List Word := (Scan.ofLine line).finished.reverse

variable {found : List Word}

/-- The state after a line that is read. -/
theorem ofLine_eq (read : words line = .ok found) : Scan.ofLine line =
    ⟨byteLength line, (Scan.ofLine line).finished, (Scan.ofLine line).word, .bare⟩ := by
  have outside := (words_eq_ok_iff.1 read).1
  have place : (Scan.ofLine line).offset = byteLength line := by
    rw [Scan.ofLine, offset_foldl]
    exact Nat.zero_add _
  rw [← outside, ← place]

/-- Between words a continuation is an empty word. -/
theorem words_continued_apart (read : words line = .ok found) (apart : Apart line text) :
    words (line ++ text) =
        (words text).map (fun later => found ++ later.map (Word.moved (byteLength line))) ∧
      words (line ++ '\\' :: '\n' :: text) = (words text).map fun later =>
        found ++ ⟨byteLength line, [], 0⟩ :: later.map (Word.moved (2 + byteLength line)) := by
  have state := ofLine_eq read
  have all := (words_eq_ok_iff.1 read).2
  rw [Scan.closed, apart.1] at all
  rw [apart.1] at state
  constructor
  · have fresh : Scan.ofLine line =
        Scan.start.after (byteLength line) (Scan.ofLine line).finished := by
      rw [state]
      simp [Scan.after, Scan.start]
    rw [words_append, fresh, foldl_after, finish_after, all]
    rfl
  · rw [words_append, List.foldl_cons, List.foldl_cons, state, step_continued rfl,
      finish_closed apart.2, all]
    rfl

/-- Whether a word is open after the line or is opened by the text, the text is read into it. -/
theorem foldl_within (read : words line = .ok found) (within : ¬ Apart line text) :
    text.foldl Scan.step (Scan.ofLine line) = text.foldl Scan.step
      ⟨byteLength line, (Scan.ofLine line).finished, some (Scan.ofLine line).current, .bare⟩ := by
  have state := ofLine_eq read
  unfold Scan.current
  cases held : (Scan.ofLine line).word with
  | some word =>
    rw [held] at state
    rw [state]
    rfl
  | none =>
    rw [held] at state
    have head : ∃ c ∈ text.head?, Text.isBlank c = false := by
      simpa [Apart, held] using within
    obtain ⟨c, first, visible⟩ := head
    obtain ⟨rest, rfl⟩ := List.head?_eq_some_iff.1 first
    rw [state, List.foldl_cons, List.foldl_cons, step_visible visible]
    rfl

/-- Inside a word, or at an end of it, a continuation quotes what is left of the word. -/
theorem words_continued_within (read : words line = .ok found) (within : ¬ Apart line text) :
    ∃ (joint : Word) (later : Except LexFault (List Word)) (behind : Nat),
      words (line ++ text) = later.map (fun found =>
        wordsBefore line ++ joint :: found.map (Word.moved behind)) ∧
      words (line ++ '\\' :: '\n' :: text) = later.map fun found =>
        wordsBefore line ++ joint.narrowed (bareHeld line) ::
          found.map (Word.moved (2 + behind)) := by
  have stepped : ((Scan.ofLine line).step '\\').step '\n' = ⟨2 + byteLength line,
      (Scan.ofLine line).finished, some ((Scan.ofLine line).current.narrowed (bareHeld line)),
      .bare⟩ := by
    rw [bareHeld, ← markQuoted_eq, ofLine_eq read, step_continued rfl]
    rfl
  obtain ⟨joint, later, behind, plain, continued⟩ :=
    @finish_narrowed (byteLength line) 2 _ (Scan.ofLine line).finished _ .bare
      (Scan.ofLine line).current.reaches_close text
  refine ⟨joint, later, behind, ?_, ?_⟩
  · rw [words_append, foldl_within read within, plain]
    rfl
  · rw [words_append, List.foldl_cons, List.foldl_cons, stepped]
    exact continued

/-! ## Tokens of a continued line -/

/-- A word with fewer bare characters has its trigger only if the sign is among them. -/
theorem trigger?_narrowed (word : Word) (limit : Nat) : (word.narrowed limit).trigger? =
    word.trigger?.filter fun flag => decide (flag.length < limit) := by
  have front : (word.narrowed limit).chars.take (word.narrowed limit).bare =
      (word.chars.take word.bare).take limit := List.take_take.symm
  unfold Word.trigger?
  simp only [front]
  generalize word.chars.take word.bare = plain
  have shorter := (List.takeWhile_prefix (l := plain) (· ≠ '=')).length_le
  have same : (plain.take limit).takeWhile (· ≠ '=') = (plain.takeWhile (· ≠ '=')).take limit :=
    List.take_takeWhile.symm
  rw [same, List.length_take, List.length_take]
  generalize plain.takeWhile (· ≠ '=') = flag at shorter
  by_cases before : flag.length < limit
  · have whole : flag.take limit = flag := List.take_of_length_le (Nat.le_of_lt before)
    have least : min limit flag.length = flag.length := by omega
    have enough : flag.length < min limit plain.length ↔ flag.length < plain.length := by omega
    rw [whole, least]
    simp only [enough]
    split <;> simp [Option.filter, before]
  · have beyond : ¬ min limit flag.length < min limit plain.length := by omega
    rw [if_neg fun holds => beyond holds.1]
    split <;> simp [Option.filter, before]

/-- A word with fewer bare characters says the same unless it is joined behind them. -/
theorem tokens_narrowed_iff (accepted : String → Bool) (word : Word) (limit : Nat) :
    ((word.narrowed limit).tokens accepted).map Token.text =
        (word.tokens accepted).map Token.text ↔
      ∀ flag, word.trigger? = some flag → accepted (String.ofList flag) = true →
        flag.length < limit := by
  unfold Word.tokens
  rw [trigger?_narrowed]
  cases word.trigger? with
  | none => simp [Word.narrowed]
  | some flag =>
    by_cases known : accepted (String.ofList flag) = true
    · by_cases before : flag.length < limit
      · simp [Option.filter, known, before, Word.narrowed]
      · simp [Option.filter, known, before, Word.narrowed]
    · by_cases before : flag.length < limit <;>
        simp [Option.filter, known, before, Word.narrowed]

/-- What the tokens of words say. -/
def wordTexts (accepted : String → Bool) (found : List Word) : List String :=
  (found.flatMap (Word.tokens accepted)).map Token.text

/-- What a line says is what its words say. -/
theorem texts_eq (accepted : String → Bool) (line : String) :
    texts accepted line = (words line.toList).map (wordTexts accepted) := by
  unfold texts tokenizeWith
  cases words line.toList <;> rfl

/-- What words and further ones say. -/
theorem wordTexts_append (accepted : String → Bool) (found others : List Word) :
    wordTexts accepted (found ++ others) =
      wordTexts accepted found ++ wordTexts accepted others := by
  simp [wordTexts]

/-- What words say does not depend on where they stand. -/
theorem wordTexts_moved (accepted : String → Bool) (found : List Word) (bytes : Nat) :
    wordTexts accepted (found.map (Word.moved bytes)) = wordTexts accepted found := by
  have still (token : Token) : (token.moved bytes).text = token.text := rfl
  simp [wordTexts, List.flatMap_map, List.map_flatMap, tokens_moved, Function.comp_def, still]

/-- What words around one word say, wherever those behind it stand. -/
theorem wordTexts_around (accepted : String → Bool) (before found : List Word) (joint : Word)
    (bytes : Nat) : wordTexts accepted (before ++ joint :: found.map (Word.moved bytes)) =
      wordTexts accepted before ++
        ((joint.tokens accepted).map Token.text ++ wordTexts accepted found) := by
  rw [wordTexts_append, ← wordTexts_moved accepted found bytes]
  simp [wordTexts]

/-- An empty word says nothing. -/
theorem wordTexts_empty (accepted : String → Bool) (place : Nat) (found : List Word) :
    wordTexts accepted (⟨place, [], 0⟩ :: found) = "" :: wordTexts accepted found := by
  simp [wordTexts, Word.tokens, Word.trigger?]

/-- What comes of a line that is continued by a text, where the line is read by itself.
It is read if the line and the text are, one right after the other, and fails for the same reason
otherwise. Between words an empty token is made. Inside a word, or at an end of it, the tokens are
those of the same words, of which the one that is continued has only those bare characters that it
had before; so they say the same exactly if that word is not cut at a sign that comes later. -/
theorem continuation_exact (accepted : String → Bool) {line : String} {first : List Token}
    (read : tokenizeWith accepted line = .ok first) (text : String) :
    (∀ fault, texts accepted (line ++ "\\\n" ++ text) = .error fault ↔
        texts accepted (line ++ text) = .error fault) ∧
      (Apart line.toList text.toList →
        texts accepted (line ++ text) =
            (texts accepted text).map (fun later => first.map Token.text ++ later) ∧
          texts accepted (line ++ "\\\n" ++ text) =
            (texts accepted text).map fun later => first.map Token.text ++ "" :: later) ∧
      (¬ Apart line.toList text.toList → ∀ found, words (line ++ text).toList = .ok found →
        ∃ joint after, found = wordsBefore line.toList ++ joint :: after ∧
          texts accepted (line ++ "\\\n" ++ text) = .ok (wordTexts accepted
            (wordsBefore line.toList ++ joint.narrowed (bareHeld line.toList) :: after)) ∧
          (texts accepted (line ++ "\\\n" ++ text) = texts accepted (line ++ text) ↔
            ∀ flag, joint.trigger? = some flag → accepted (String.ofList flag) = true →
              flag.length < bareHeld line.toList)) := by
  have mark : "\\\n".toList = ['\\', '\n'] := by decide
  have plain : (line ++ text).toList = line.toList ++ text.toList := String.toList_append
  have continued : (line ++ "\\\n" ++ text).toList =
      line.toList ++ '\\' :: '\n' :: text.toList := by
    rw [String.toList_append, String.toList_append, mark, List.append_assoc]
    rfl
  unfold tokenizeWith at read
  cases scanned : words line.toList with
  | error fault =>
    rw [scanned] at read
    cases read
  | ok own =>
    rw [scanned] at read
    cases read
    simp only [texts_eq, plain, continued]
    by_cases apart : Apart line.toList text.toList
    · obtain ⟨whole, marked⟩ := words_continued_apart scanned apart
      rw [whole, marked]
      refine ⟨fun fault => ?_, fun _ => ?_, fun within => absurd apart within⟩
      · cases words text.toList <;> simp [Except.map]
      · cases words text.toList with
        | error fault => exact ⟨rfl, rfl⟩
        | ok later =>
          simp only [Except.map, wordTexts_append, wordTexts_moved, wordTexts_empty]
          exact ⟨rfl, rfl⟩
    · obtain ⟨joint, later, behind, whole, marked⟩ := words_continued_within scanned apart
      rw [whole, marked]
      refine ⟨fun fault => ?_, fun meets => absurd meets apart, fun _ found read => ?_⟩
      · cases later <;> simp [Except.map]
      · cases later with
        | error fault => cases read
        | ok later =>
          cases read
          refine ⟨joint, later.map (Word.moved behind), rfl, ?_, ?_⟩
          · rw [Except.map, Except.map, wordTexts_around, wordTexts_around]
          · rw [Except.map, Except.map, Except.map, Except.map, wordTexts_around,
              wordTexts_around, Except.ok.injEq, List.append_right_inj, List.append_left_inj,
              tokens_narrowed_iff]

/-- A line that is continued right after the sign of a joined word says the same as without the
continuation: the trigger and its sign stand before it. -/
theorem greeting_continued :
    (∃ first, tokenizeWith ["--name"].contains "run --name=" = .ok first) ∧
      texts ["--name"].contains ("run --name=" ++ "\\\n" ++ "Ada --all") =
        texts ["--name"].contains ("run --name=" ++ "Ada --all") := by
  have read : tokenizeWith ["--name"].contains "run --name=" =
      .ok [⟨"run", 0⟩, ⟨"--name", 4⟩, ⟨"=", 10⟩, ⟨"", 11⟩] := by decide +kernel
  have within : ¬ Apart "run --name=".toList "Ada --all".toList := by decide +kernel
  have before : wordsBefore "run --name=".toList = [⟨0, "run".toList, 3⟩] := by decide +kernel
  have held : bareHeld "run --name=".toList = 7 := by decide +kernel
  have whole : words ("run --name=" ++ "Ada --all").toList =
      .ok [⟨0, "run".toList, 3⟩, ⟨4, "--name=Ada".toList, 10⟩, ⟨15, "--all".toList, 5⟩] := by
    decide +kernel
  obtain ⟨joint, after, found, _, same⟩ :=
    (continuation_exact ["--name"].contains read "Ada --all").2.2 within _ whole
  refine ⟨⟨_, read⟩, same.2 fun flag trigger _ => ?_⟩
  rw [before, List.singleton_append, List.cons.injEq, List.cons.injEq] at found
  obtain ⟨_, rfl, _⟩ := found
  have name : (⟨4, "--name=Ada".toList, 10⟩ : Word).trigger? = some "--name".toList := by
    decide +kernel
  rw [name] at trigger
  cases trigger
  rw [held]
  decide

/-- A continuation is seen: between words it is an empty token, and before the sign of a joined word
it keeps the word whole. -/
theorem continuation_seen :
    (texts ["--name"].contains "run " = .ok ["run"] ∧
      texts ["--name"].contains ("run " ++ "\\\n" ++ " --all") = .ok ["run", "", "--all"] ∧
      texts ["--name"].contains ("run " ++ " --all") = .ok ["run", "--all"]) ∧
    texts ["--name"].contains "run --na" = .ok ["run", "--na"] ∧
      texts ["--name"].contains ("run --na" ++ "\\\n" ++ "me=x") = .ok ["run", "--name=x"] ∧
      texts ["--name"].contains ("run --na" ++ "me=x") = .ok ["run", "--name", "=", "x"] := by
  decide +kernel

end CommandGrammar.Line
