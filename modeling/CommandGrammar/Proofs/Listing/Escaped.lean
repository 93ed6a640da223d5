import Mathlib
import CommandGrammar.Number.Integer
import CommandGrammar.Text.Escaped

/-!
# Reading escaped texts

An escaped text tells where it ends and which text it shows: a character that is shown by
itself is neither the quote nor the backslash, the short escapes differ from each other,
and the number of a hidden character ends at its closing brace. So a reader that is given an
escaped text, followed by anything, returns the text and what follows.

Readers are bounded by fuel. What counts is their result once there is enough of it; two
results of one reader are the same.
-/

namespace CommandGrammar

/-! ## Enough fuel -/

/-- A reader returns a result from some amount of fuel on. -/
def Returns {α : Type} (read : Nat → Option α) (result : α) : Prop :=
  ∃ enough, ∀ fuel, enough ≤ fuel → read fuel = some result

namespace Returns

variable {α β : Type} {read : Nat → Option α} {result other : α}

/-- What is returned with any fuel is returned. -/
theorem of_forall (each : ∀ fuel, read fuel = some result) : Returns read result :=
  ⟨0, fun fuel _ => each fuel⟩

/-- A step of the reader may use up some fuel. -/
theorem of_succ (next : Returns (fun fuel => read (fuel + 1)) result) : Returns read result := by
  obtain ⟨enough, all⟩ := next
  refine ⟨enough + 1, fun fuel least => ?_⟩
  obtain ⟨less, rfl⟩ : ∃ less, fuel = less + 1 := ⟨fuel - 1, by omega⟩
  exact all less (by omega)

/-- Readers that agree return the same. -/
theorem congr {again : Nat → Option α} (returns : Returns again result)
    (agree : ∀ fuel, read fuel = again fuel) : Returns read result := by
  rwa [show read = again from funext agree]

/-- A reader after another one goes on with the result of that. -/
theorem bind {next : Nat → α → Option β} {final : β} (first : Returns read result)
    (second : Returns (fun fuel => next fuel result) final) :
    Returns (fun fuel => (read fuel).bind (next fuel)) final := by
  obtain ⟨enough, reads⟩ := first
  obtain ⟨more, goes_on⟩ := second
  refine ⟨max enough more, fun fuel least => ?_⟩
  have result_of := reads fuel (by omega)
  simp only [result_of, Option.bind_some]
  exact goes_on fuel (by omega)

/-- What a reader returns may be changed afterwards. -/
theorem map (returns : Returns read result) (change : α → β) :
    Returns (fun fuel => (read fuel).map change) (change result) := by
  obtain ⟨enough, reads⟩ := returns
  exact ⟨enough, fun fuel least => by simp only [reads fuel least, Option.map_some]⟩

/-- A reader returns one result. -/
theorem unique (first : Returns read result) (second : Returns read other) : result = other := by
  obtain ⟨enough, reads⟩ := first
  obtain ⟨more, again⟩ := second
  have same := (reads (max enough more) (by omega)).symm.trans (again (max enough more) (by omega))
  exact Option.some.inj same

end Returns

namespace Text

/-! ## Numerals -/

/-- The number that digits of a base up to sixteen spell. -/
def numeral (base : Nat) (digits : List Char) : Nat :=
  digits.foldl (fun n c => base * n + (Number.hexDigit? c).getD 0) 0

/-- A digit has its value. -/
theorem hexDigit?_digitChar {n : Nat} (small : n < 16) :
    Number.hexDigit? (Nat.digitChar n) = some n := by
  decide +revert

/-- The digits of a number spell it. -/
theorem numeral_toDigits {base : Nat} (least : 1 < base) (most : base ≤ 16) (n : Nat) :
    numeral base (Nat.toDigits base n) = n := by
  induction n using Nat.strong_induction_on with
  | _ n ih =>
    rw [Nat.toDigits_eq_if least]
    split
    · next small =>
      simp [numeral, hexDigit?_digitChar (show n < 16 by omega)]
    · next large =>
      have fewer : n / base < n := Nat.div_lt_self (by omega) least
      have last : n % base < 16 := Nat.lt_of_lt_of_le (Nat.mod_lt n (by omega)) most
      have first := ih (n / base) fewer
      rw [numeral] at first ⊢
      rw [List.foldl_append, first]
      simp [hexDigit?_digitChar last, Nat.div_add_mod]

/-- The digits of a number are digits of its base. -/
theorem exists_digitChar {base n : Nat} (least : 1 < base) {c : Char}
    (member : c ∈ Nat.toDigits base n) : ∃ digit < base, c = Nat.digitChar digit := by
  induction n using Nat.strong_induction_on with
  | _ n ih =>
    rw [Nat.toDigits_eq_if least] at member
    split at member
    · next small => exact ⟨n, small, List.mem_singleton.1 member⟩
    · next large =>
      rcases List.mem_append.1 member with before | last
      · exact ih (n / base) (Nat.div_lt_self (by omega) least) before
      · exact ⟨n % base, Nat.mod_lt n (by omega), List.mem_singleton.1 last⟩

/-! ## Characters -/

/-- A run of characters ends where a character of another kind follows. -/
theorem run_append {kind : Char → Bool} {run rest : List Char}
    (each : ∀ c ∈ run, kind c = true) (stops : ∀ c ∈ rest.head?, kind c = false) :
    (run ++ rest).takeWhile kind = run ∧ (run ++ rest).dropWhile kind = rest := by
  rw [List.takeWhile_append_of_pos each, List.dropWhile_append_of_pos each]
  cases rest with
  | nil => exact ⟨List.append_nil run, rfl⟩
  | cons c others =>
    have other : ¬ kind c = true := by simp [stops c rfl]
    rw [List.takeWhile_cons_of_neg other, List.dropWhile_cons_of_neg other, List.append_nil]
    exact ⟨rfl, rfl⟩

/-- Reads what follows a backslash. -/
def readEscape : List Char → Option (Char × List Char)
  | 'u' :: '\x7b' :: rest =>
    some (Char.ofNat (numeral 16 (rest.takeWhile (· != '\x7d'))),
      (rest.dropWhile (· != '\x7d')).drop 1)
  | 'n' :: rest => some ('\n', rest)
  | 'r' :: rest => some ('\x0d', rest)
  | 't' :: rest => some ('\t', rest)
  | '0' :: rest => some ('\x00', rest)
  | c :: rest => some (c, rest)
  | [] => none

/-- Reads one character of an escaped text. -/
def readChar : List Char → Option (Char × List Char)
  | '\\' :: rest => readEscape rest
  | c :: rest => some (c, rest)
  | [] => none

/-- The number of a character is read from its digits between braces. -/
theorem readEscape_number (c : Char) (rest : List Char) :
    readEscape ('u' :: '\x7b' :: Nat.toDigits 16 c.toNat ++ '\x7d' :: rest) = some (c, rest) := by
  have digits : ∀ digit ∈ Nat.toDigits 16 c.toNat, (digit != '\x7d') = true := by
    intro digit member
    obtain ⟨n, _, rfl⟩ := exists_digitChar (by decide) member
    exact bne_iff_ne.2 (Nat.digitChar_ne _ (by decide))
  obtain ⟨number, after⟩ := @run_append _ _ ('\x7d' :: rest) digits (by simp)
  rw [List.cons_append, List.cons_append, readEscape, number, after,
    numeral_toDigits (by decide) (by decide), Char.ofNat_toNat, List.drop_one, List.tail_cons]

/-- A character is read from its escaped form. -/
theorem readChar_escapeChar (c : Char) (rest : List Char) :
    readChar (escapeChar c ++ rest) = some (c, rest) := by
  unfold escapeChar
  split
  · next quote => rw [quote]; rfl
  split
  · next backslash => rw [backslash]; rfl
  split
  · next newline => rw [newline]; rfl
  split
  · next feed => rw [feed]; rfl
  split
  · next tab => rw [tab]; rfl
  split
  · next null => rw [null]; rfl
  split
  · rw [List.append_assoc]
    exact readEscape_number c rest
  · next backslash _ _ _ _ _ =>
    exact readChar.eq_2 c rest backslash

/-- The escaped form of a character does not begin with a quote. -/
theorem exists_escapeChar (c : Char) :
    ∃ first others, escapeChar c = first :: others ∧ first ≠ '"' := by
  unfold escapeChar
  by_cases quote : c = '"'
  · rw [if_pos quote]
    exact ⟨_, _, rfl, by decide⟩
  · rw [if_neg quote]
    split_ifs <;> exact ⟨_, _, rfl, by first | exact quote | decide⟩

/-! ## Texts -/

/-- Reads an escaped text after its opening quote, up to the closing one. -/
def readEscaped : Nat → List Char → Option (List Char × List Char)
  | 0, _ => none
  | _ + 1, '"' :: rest => some ([], rest)
  | fuel + 1, cs => do
    let (c, rest) ← readChar cs
    (readEscaped fuel rest).map fun (others, rest) => (c :: others, rest)

/-- A text is read from its escaped form. -/
theorem readEscaped_escaped (cs rest : List Char) :
    Returns (readEscaped · (cs.flatMap escapeChar ++ '"' :: rest)) (cs, rest) := by
  induction cs with
  | nil => exact .of_succ (.of_forall fun _ => rfl)
  | cons c others ih =>
    have head := readChar_escapeChar c (others.flatMap escapeChar ++ '"' :: rest)
    obtain ⟨first, more, same, plain⟩ := exists_escapeChar c
    have later := ih.map fun (others, rest) => (c :: others, rest)
    refine .of_succ (later.congr fun fuel => ?_)
    rw [same, List.cons_append] at head
    rw [List.flatMap_cons, List.append_assoc, same, List.cons_append, readEscaped, head]
    · rfl
    · rintro more ⟨⟩
      exact plain rfl

/-- An escaped text stands between quotes. -/
theorem toList_escaped (text : String) :
    (escaped text).toList = '"' :: text.toList.flatMap escapeChar ++ ['"'] := by
  simp [escaped]

end Text

end CommandGrammar
