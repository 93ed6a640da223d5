import Mathlib
import CommandGrammar.Json.Reader
import CommandGrammar.Number.Notation
import CommandGrammar.Proofs.Listing.Escaped

/-!
# Numbers as words

A word that is a numeral is taken apart into a sign, digits that do not begin with a zero unless it
stands alone, a fraction and a power of ten. An integer of at most 64 bits is written as such a word
and read back as it is. A finite binary64 number is written as one too, always with a fraction or a
power of ten, so what is read back is again a binary64 number and never an integer.
-/

namespace CommandGrammar

namespace Number

/-- Digits spell a number. -/
theorem natural?_of_digits {cs : List Char} (digits : ∀ c ∈ cs, c.isDigit = true) :
    natural? cs = some (Nat.ofDigitChars 10 cs 0) := by
  have run : ∀ value, cs.foldlM (fun value c => (digit? c).map (10 * value + ·)) value =
      some (Nat.ofDigitChars 10 cs value) := by
    induction cs with
    | nil =>
      intro value
      simp [Nat.ofDigitChars_eq_foldl]
    | cons c rest ih =>
      intro value
      have head : digit? c = some (c.toNat - '0'.toNat) := by simp [digit?, digits c]
      rw [List.foldlM_cons, head, Nat.ofDigitChars_eq_foldl, List.foldl_cons,
        ← Nat.ofDigitChars_eq_foldl]
      exact ih (fun other member => digits other (List.mem_cons_of_mem _ member)) _
  exact run 0

/-- The digits of a number are digits. -/
theorem isDigit_of_mem_digits {n : Nat} {c : Char} (member : c ∈ digits n) : c.isDigit = true :=
  Nat.isDigit_of_mem_toDigits (by decide) (by decide) member

/-- The digits of a number spell it. -/
theorem natural?_digits (n : Nat) : natural? (digits n) = some n := by
  rw [natural?_of_digits fun _ => isDigit_of_mem_digits, digits, Nat.ofDigitChars_ten_toDigits]

/-- Only digits spell a number. -/
theorem isDigit_of_natural? {cs : List Char} {n : Nat} (spells : natural? cs = some n) :
    ∀ c ∈ cs, c.isDigit = true := by
  have run : ∀ value, cs.foldlM (fun value c => (digit? c).map (10 * value + ·)) value = some n →
      ∀ c ∈ cs, c.isDigit = true := by
    clear spells
    induction cs with
    | nil => simp
    | cons c rest ih =>
      intro value reads other member
      rw [List.foldlM_cons, Option.bind_eq_bind, Option.bind_eq_some_iff] at reads
      obtain ⟨next, head, tail⟩ := reads
      rcases List.mem_cons.1 member with rfl | later
      · by_contra letter
        simp [digit?, letter] at head
      · exact ih next tail other later
  exact run 0 spells

/-- Digits before a point: there is one, and a zero stands first only if it stands alone. -/
structure IsWhole (cs : List Char) : Prop where
  /-- All characters are digits. -/
  digits : ∀ c ∈ cs, c.isDigit = true
  /-- There is one. -/
  nonempty : cs ≠ []
  /-- A zero stands first only if it stands alone. -/
  lead : cs.head? = some '0' → cs.length = 1

/-- The digits of a number other than zero do not begin with a zero. -/
theorem head?_digits_ne {n : Nat} (positive : n ≠ 0) : (digits n).head? ≠ some '0' := by
  induction n using Nat.strong_induction_on with
  | _ n ih =>
    rw [digits, Nat.toDigits_eq_if (by decide)]
    split
    · simpa [Nat.digitChar_eq_zero] using positive
    · next large =>
      have front : n / 10 ≠ 0 := by omega
      have first := ih (n / 10) (by omega) front
      rw [List.head?_append_of_ne_nil _ Nat.toDigits_ne_nil]
      exact first

/-- The digits of a number may stand before a point. -/
theorem isWhole_digits (n : Nat) : IsWhole (digits n) := by
  refine ⟨fun _ => isDigit_of_mem_digits, Nat.toDigits_ne_nil, fun zero => ?_⟩
  by_cases positive : n = 0
  · rw [positive]
    rfl
  · exact absurd zero (head?_digits_ne positive)

end Number

namespace Json.Numeral

open Number

variable {numeral : Numeral} {whole rest fraction after cs : List Char} {power : Option Int}

/-- A word that begins with digits which may stand before a point is a numeral if what follows is a
fraction and a power of ten. -/
theorem ofWord?_append (proper : IsWhole whole) (stops : ∀ c ∈ rest.head?, c.isDigit = false)
    (fractional : takeFraction? rest = some (fraction, after)) (powered : power? after = some power)
    (negative : Bool) :
    ofWord? (if negative then '-' :: (whole ++ rest) else whole ++ rest) =
      some ⟨negative, whole, fraction, power⟩ := by
  obtain ⟨run, left⟩ := Text.run_append proper.digits stops
  have signless : takeMinus (whole ++ rest) = (false, whole ++ rest) := by
    obtain ⟨c, others, rfl⟩ := List.exists_cons_of_ne_nil proper.nonempty
    have digit := proper.digits c List.mem_cons_self
    rw [List.cons_append, takeMinus]
    rintro others ⟨⟩
    exact absurd digit (by decide)
  have sign : takeMinus (if negative then '-' :: (whole ++ rest) else whole ++ rest) =
      (negative, whole ++ rest) := by
    cases negative
    · exact signless
    · rfl
  have leads : ¬ (whole.isEmpty = true ∨ whole.head? = some '0' ∧ whole.length ≠ 1) := by
    rintro (empty | ⟨zero, longer⟩)
    · exact proper.nonempty (List.isEmpty_iff.1 empty)
    · exact longer (proper.lead zero)
  simp only [ofWord?, sign, run, left, if_neg leads, fractional, powered, Option.bind_eq_bind,
    Option.bind_some, Option.pure_def]

/-- A digit may stand in a word. -/
theorem inWord_of_isDigit {c : Char} (digit : c.isDigit = true) : Written.inWord c = true := by
  simp [Written.inWord, Char.isAlphanum, digit]

/-- The characters of a signed power of ten may stand in a word. -/
theorem inWord_of_signed? {exponent : Int} (found : signed? cs = some exponent) :
    ∀ c ∈ cs, Written.inWord c = true := by
  have spelled {digits : List Char} {n : Nat} (spells : Number.natural? digits = some n) :
      ∀ c ∈ digits, Written.inWord c = true :=
    fun c member => inWord_of_isDigit (isDigit_of_natural? spells c member)
  rw [signed?.eq_def] at found
  split at found
  all_goals
    split at found
    · cases found
    · obtain ⟨n, spells, _⟩ := Option.map_eq_some_iff.1 found
      simpa [Written.inWord] using spelled spells

/-- The characters of a power of ten may stand in a word. -/
theorem inWord_of_power? (powered : power? after = some power) :
    ∀ c ∈ after, Written.inWord c = true := by
  rw [power?.eq_def] at powered
  split at powered
  · simp
  · obtain ⟨_, found, _⟩ := Option.map_eq_some_iff.1 powered
    simpa [Written.inWord, Char.isAlphanum, Char.isAlpha] using inWord_of_signed? found
  · obtain ⟨_, found, _⟩ := Option.map_eq_some_iff.1 powered
    simpa [Written.inWord, Char.isAlphanum, Char.isAlpha] using inWord_of_signed? found
  · cases powered

/-- The characters of a fraction and what follows it may stand in a word if what follows may. -/
theorem inWord_of_takeFraction? (fractional : takeFraction? rest = some (fraction, after))
    (following : ∀ c ∈ after, Written.inWord c = true) : ∀ c ∈ rest, Written.inWord c = true := by
  rw [takeFraction?.eq_def] at fractional
  split at fractional
  · next others =>
    simp only at fractional
    split at fractional
    · cases fractional
    · cases fractional
      intro c member
      rcases List.mem_cons.1 member with rfl | later
      · decide
      · rw [← @List.takeWhile_append_dropWhile _ Char.isDigit others] at later
        rcases List.mem_append.1 later with digit | tail
        · exact inWord_of_isDigit (List.mem_takeWhile_imp digit)
        · exact following c tail
  · cases fractional
    exact following

/-- What a sign was taken from is the rest with the sign before it. -/
theorem takeMinus_spec (cs : List Char) :
    cs = if (takeMinus cs).1 then '-' :: (takeMinus cs).2 else (takeMinus cs).2 := by
  rw [takeMinus.eq_def]
  split <;> simp

/-- The characters of a numeral may stand in a word. -/
theorem inWord_of_ofWord? (found : ofWord? cs = some numeral) :
    ∀ c ∈ cs, Written.inWord c = true := by
  have unsigned : ∀ c ∈ (takeMinus cs).2, Written.inWord c = true := by
    simp only [ofWord?, Option.bind_eq_bind] at found
    split at found
    · cases found
    · obtain ⟨⟨fraction, rest⟩, fractional, others⟩ := Option.bind_eq_some_iff.1 found
      obtain ⟨power, powered, _⟩ := Option.bind_eq_some_iff.1 others
      intro c member
      rw [← @List.takeWhile_append_dropWhile _ Char.isDigit (takeMinus cs).2] at member
      rcases List.mem_append.1 member with digit | tail
      · exact inWord_of_isDigit (List.mem_takeWhile_imp digit)
      · exact inWord_of_takeFraction? fractional (inWord_of_power? powered) c tail
  rw [takeMinus_spec cs]
  split
  · exact List.forall_mem_cons.2 ⟨by decide, unsigned⟩
  · exact unsigned

end Json.Numeral

namespace Json

open Number

/-- A numeral is no other word, so it stands for its number. -/
theorem ofWord?_of_numeral {numeral : Numeral} {cs : List Char}
    (found : Numeral.ofWord? cs = some numeral) (number? : Numeral → Option Json) :
    ofWord? number? cs = number? numeral := by
  have noName : ∀ name, Numeral.ofWord? name = none → cs ≠ name := by
    rintro name nothing rfl
    rw [nothing] at found
    cases found
  have noNull := noName "null".toList (by decide)
  have noTrue := noName "true".toList (by decide)
  have noFalse := noName "false".toList (by decide)
  rw [ofWord?, if_neg noNull, if_neg noTrue, if_neg noFalse, found, Option.bind_some]

/-- The text of an integer is a numeral that stands for it, if it fits 64 bits, signed or not. -/
theorem exists_numeral_integer {n : Int} (least : -2 ^ 63 ≤ n) (most : n < 2 ^ 64) :
    ∃ numeral, Numeral.ofWord? (toString n).toList = some numeral ∧
      numeral.number? = some (.integer n) := by
  have taken (negative : Bool) (m : Nat) :
      Numeral.ofWord? (if negative then '-' :: digits m else digits m) =
        some ⟨negative, digits m, [], none⟩ := by
    simpa using @Numeral.ofWord?_append (digits m) [] [] [] none (isWhole_digits m) (by simp)
      rfl rfl negative
  have stands (negative : Bool) (m : Nat)
      (fits : if negative then m ≠ 0 ∧ 2 * m ≤ UInt64.size else m < UInt64.size) :
      (⟨negative, digits m, [], none⟩ : Numeral).number? =
        some (.integer (if negative then -m else m)) := by
    have whole : (⟨negative, digits m, [], none⟩ : Numeral).wholeNumber = m := by
      rw [Numeral.wholeNumber, natural?_digits, Option.getD_some]
    rw [Numeral.number?, whole]
    exact if_pos ⟨rfl, fits⟩
  have size : UInt64.size = 2 ^ 64 := rfl
  rw [Int.toString_eq_repr, Int.repr_eq_if]
  split
  · have same : (n.toNat : Int) = n := by omega
    refine ⟨⟨false, digits n.toNat, [], none⟩,
      by simpa [Nat.repr, digits] using taken false n.toNat, ?_⟩
    rw [stands false n.toNat (by simp only [Bool.false_eq_true, if_false]; omega),
      if_neg Bool.false_ne_true, same]
  · have same : -((-n).toNat : Int) = n := by omega
    refine ⟨⟨true, digits (-n).toNat, [], none⟩,
      by simpa [Nat.repr, digits] using taken true (-n).toNat, ?_⟩
    rw [stands true (-n).toNat (by simp only [if_true]; omega), if_pos rfl, same]

end Json

end CommandGrammar
