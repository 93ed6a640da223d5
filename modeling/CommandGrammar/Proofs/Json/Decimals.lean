import Mathlib
import CommandGrammar.Proofs.Json.Numerals

/-!
# The text of a binary64 number

The shortest decimal of a finite number has a coefficient other than zero, unless the number is
zero. So its digits never begin with a zero that another digit follows, and the text is a numeral.
It shows a fraction or a power of ten, so the numeral is that of no integer.
-/

namespace CommandGrammar

namespace Number

/-! ## Shortest decimals -/

/-- The exponent field of a finite number is not all ones. -/
theorem exponentField_ne {x : Float} (finite : x.isFinite = true) :
    x.toBits.toNat / fractionCount % 2048 ≠ 2047 := by
  intro ones
  have field : @Float.Model.UnpackedFloat.unpackExponent Float.Model.Format.binary64
      x.toModel.toBits.toBitVec = -1#11 := by
    apply BitVec.eq_of_toNat_eq
    simp only [Float.Model.UnpackedFloat.unpackExponent, BitVec.toNat_cast, BitVec.extractLsb_toNat,
      Nat.shiftRight_eq_div_pow]
    exact ones
  have infinite : x.isFinite = false := by
    simp only [Float.isFinite, Float.Model.isFinite, Float.Model.unpack,
      Float.Model.UnpackedFloat.unpack]
    rw [if_pos field]
    split <;> rfl
  rw [finite] at infinite
  cases infinite

/-- The interval of a positive number begins above zero. -/
theorem Interval.low_ofFields {exponentField fraction : Nat}
    (positive : exponentField ≠ 0 ∨ fraction ≠ 0) :
    0 < (Interval.ofFields exponentField fraction).low := by
  simp only [Interval.ofFields, fractionCount]
  split <;> split <;> omega

/-- No multiple of a power of ten inside an interval above zero is zero. -/
theorem Interval.onGrid?_ne_zero {interval : Interval} (positive : 0 < interval.low) {tie : Tie}
    {grid : Int} {n : Nat} (found : interval.onGrid? tie grid = some n) : n ≠ 0 := by
  obtain ⟨left, right, parts⟩ : ∃ left right, scales grid interval.unit = (left, right) :=
    ⟨_, _, rfl⟩
  have unit : 0 < right := by
    have second : right = Nat.pow 10 (-grid).toNat * Nat.pow 2 interval.unit.toNat :=
      (congrArg Prod.snd parts).symm
    rw [second]
    exact Nat.mul_pos (Nat.pow_pos (by decide)) (Nat.pow_pos (by decide))
  have above : 0 < interval.low * right := Nat.mul_pos positive unit
  have refused : ¬ (if interval.closed then
      decide (interval.low * right ≤ 0) && decide (0 ≤ interval.high * right)
      else decide (interval.low * right < 0) && decide (0 < interval.high * right)) = true := by
    have beyond : ¬ interval.low * right ≤ 0 := Nat.not_le.2 above
    simp [beyond]
  rintro rfl
  simp only [onGrid?, parts] at found
  -- the multiple below the number is taken only inside the interval, the one above it is not zero
  split at found
  · next inside _ =>
    have same := Option.some.inj found
    split at same
    · cases same
    · simp only [same, Nat.zero_mul] at inside
      exact refused inside
  · next inside _ =>
    simp only [Option.some.inj found, Nat.zero_mul] at inside
    exact refused inside
  · cases found
  · cases found

/-- Moving zeros into the exponent leaves a coefficient other than zero. -/
theorem Decimal.coefficient_normalize_ne {fuel : Nat} {decimal : Decimal}
    (positive : decimal.coefficient ≠ 0) : (decimal.normalize fuel).coefficient ≠ 0 := by
  induction fuel generalizing decimal with
  | zero => exact positive
  | succ fuel ih =>
    rw [normalize]
    split
    · next divides => exact ih (by simp only; omega)
    · exact positive

/-- The shortest decimal of an interval above zero has a coefficient other than zero. -/
theorem Interval.coefficient_shortest_ne {interval : Interval} (positive : 0 < interval.low)
    (ordered : interval.low ≤ interval.middle) (tie : Tie) :
    (interval.shortest tie).coefficient ≠ 0 := by
  simp only [shortest]
  apply Decimal.coefficient_normalize_ne
  cases search : (List.range' 1 17).findSome? _ with
  | none =>
    simp only [Option.getD_none]
    omega
  | some decimal =>
    obtain ⟨count, _, found⟩ := List.exists_of_findSome?_eq_some search
    obtain ⟨n, onGrid, rfl⟩ := Option.map_eq_some_iff.1 found
    exact onGrid?_ne_zero positive onGrid

/-- A finite number is zero or has a shortest decimal other than zero. -/
theorem exists_finite {x : Float} (finite : x.isFinite = true) (tie : Tie) :
    ∃ negative magnitude, Parts.ofFloat tie x = .finite negative magnitude ∧
      (magnitude.coefficient = 0 → magnitude.exponent = 0) := by
  have field := exponentField_ne finite
  simp only [Parts.ofFloat, if_neg field]
  split
  · exact ⟨_, _, rfl, fun _ => rfl⟩
  · next positive =>
    have low := @Interval.low_ofFields (x.toBits.toNat / fractionCount % 2048)
      (x.toBits.toNat % fractionCount) (by omega)
    refine ⟨_, _, rfl, fun zero => absurd zero ?_⟩
    exact Interval.coefficient_shortest_ne low (by simp only [Interval.ofFields]; omega) tie

/-! ## Positional text -/

/-- The digits before the point may stand there, and after the point there are digits. -/
theorem isWhole_positional {decimal : Decimal}
    (zero : decimal.coefficient = 0 → decimal.exponent = 0) :
    IsWhole (positional decimal).1 ∧ ∀ c ∈ (positional decimal).2, c.isDigit = true := by
  have some_digit : digits decimal.coefficient ≠ [] := Nat.toDigits_ne_nil
  have written : ∀ c ∈ digits decimal.coefficient, c.isDigit = true :=
    fun _ => isDigit_of_mem_digits
  have zeros (count : Nat) : ∀ c ∈ List.replicate count '0', c.isDigit = true := by
    intro c member
    rw [List.eq_of_mem_replicate member]
    decide
  rw [positional]
  simp only
  split
  · refine ⟨?_, by simp⟩
    by_cases null : decimal.coefficient = 0
    · rw [zero null, Int.toNat_zero, List.replicate_zero, List.append_nil]
      exact isWhole_digits _
    · refine ⟨List.forall_mem_append.2 ⟨written, zeros _⟩, by simp [some_digit], fun first => ?_⟩
      rw [List.head?_append_of_ne_nil _ some_digit] at first
      exact absurd first (head?_digits_ne null)
  · next negative =>
    generalize places_eq : (-decimal.exponent).toNat = places
    have digit := List.forall_mem_append.2 ⟨zeros (places + 1 -
      (digits decimal.coefficient).length), written⟩
    refine ⟨?_, fun c member => digit c (List.mem_of_mem_drop member)⟩
    by_cases short : (digits decimal.coefficient).length ≤ places
    · -- zeros fill the number up to one digit before the point
      obtain ⟨more, enough⟩ : ∃ more, places + 1 - (digits decimal.coefficient).length = more + 1 :=
        ⟨places - (digits decimal.coefficient).length, by omega⟩
      have first : (List.replicate (more + 1) '0' ++ digits decimal.coefficient).length -
          places = 1 := by
        rw [List.length_append, List.length_replicate]
        omega
      have lone : IsWhole ['0'] := ⟨zeros 1, List.cons_ne_nil _ _, fun _ => rfl⟩
      rw [enough, first]
      exact lone
    · have none_left : places + 1 - (digits decimal.coefficient).length = 0 := by omega
      rw [none_left, List.replicate_zero, List.nil_append] at digit ⊢
      have positive : decimal.coefficient ≠ 0 := by
        intro null
        have flat := zero null
        omega
      obtain ⟨before, count⟩ : ∃ before, (digits decimal.coefficient).length - places =
          before + 1 := ⟨(digits decimal.coefficient).length - places - 1, by omega⟩
      refine ⟨fun c member => digit c (List.mem_of_mem_take member), ?_, fun first => ?_⟩
      · rw [count]
        simp [some_digit]
      · rw [count, List.head?_take] at first
        simp only [Nat.add_eq_zero_iff, one_ne_zero, and_false, if_false] at first
        exact absurd first (head?_digits_ne positive)

/-! ## Text with a fraction or a power of ten -/

/-- The characters of a signed text. -/
theorem toList_signed (negative : Bool) (cs : List Char) :
    (signed negative cs).toList = if negative then '-' :: cs else cs := by
  rw [signed, String.toList_ofList]

end Number

namespace Json

open Number

/-- A point and digits after it are a fraction. -/
theorem takeFraction?_point {fraction rest : List Char}
    (decimals : ∀ c ∈ fraction, c.isDigit = true) (nonempty : fraction ≠ [])
    (stops : ∀ c ∈ rest.head?, c.isDigit = false) :
    Numeral.takeFraction? ('.' :: (fraction ++ rest)) = some (fraction, rest) := by
  obtain ⟨run, left⟩ := Text.run_append decimals stops
  simp [Numeral.takeFraction?, run, left, nonempty]

/-- A sign and the digits of a number are a power of ten. -/
theorem exists_power (leading : Int) : ∃ exponent,
    Numeral.power? ('e' :: (if 0 ≤ leading then
        jsonStyle.positiveSign.toList ++ digits leading.toNat
      else '-' :: digits (-leading).toNat)) = some (some exponent) := by
  have shown (n : Nat) : (digits n).isEmpty = false := by simp [digits]
  have plus : jsonStyle.positiveSign.toList = ['+'] := rfl
  split
  · refine ⟨Int.ofNat leading.toNat, ?_⟩
    rw [plus]
    simp [Numeral.power?, Numeral.signed?, shown, natural?_digits]
  · refine ⟨-Int.ofNat (-leading).toNat, ?_⟩
    simp [Numeral.power?, Numeral.signed?, shown, natural?_digits]

/-- Digits around a point are a numeral, but not that of an integer. -/
theorem exists_numeral_point {whole fraction : List Char} (proper : IsWhole whole)
    (decimals : ∀ c ∈ fraction, c.isDigit = true) (nonempty : fraction ≠ []) (negative : Bool) :
    ∃ numeral, Numeral.ofWord? (signed negative (whole ++ '.' :: fraction)).toList = some numeral ∧
      numeral.isInteger = false := by
  have fractional := @takeFraction?_point fraction [] decimals nonempty (by simp)
  rw [List.append_nil] at fractional
  have stops : ∀ c ∈ ('.' :: fraction).head?, c.isDigit = false := by simp
  have ended : Numeral.power? [] = some none := rfl
  refine ⟨⟨negative, whole, fraction, none⟩, ?_, by simp [Numeral.isInteger, nonempty]⟩
  rw [toList_signed]
  exact Numeral.ofWord?_append proper stops fractional ended negative

/-- A digit, any others after a point and a power of ten are a numeral, but not that of an
integer. -/
theorem exists_numeral_power {first : Char} {others power : List Char} {exponent : Int}
    (head : first.isDigit = true) (tail : ∀ c ∈ others, c.isDigit = true)
    (powered : Numeral.power? ('e' :: power) = some (some exponent)) (negative : Bool) :
    ∃ numeral, Numeral.ofWord? (signed negative
      ([first] ++ (if others = [] then [] else '.' :: others) ++ 'e' :: power)).toList =
        some numeral ∧ numeral.isInteger = false := by
  have lone : IsWhole [first] :=
    ⟨List.forall_mem_singleton.2 head, List.cons_ne_nil _ _, fun _ => rfl⟩
  generalize shown : (if others = [] then [] else '.' :: others) ++ 'e' :: power = rest
  have fractional : Numeral.takeFraction? rest = some (others, 'e' :: power) := by
    rw [← shown]
    cases others with
    | nil => rfl
    | cons next more => exact takeFraction?_point tail (List.cons_ne_nil _ _) (by simp)
  have stops : ∀ c ∈ rest.head?, c.isDigit = false := by
    rw [← shown]
    split <;> simp
  refine ⟨⟨negative, [first], others, some exponent⟩, ?_, by simp [Numeral.isInteger]⟩
  rw [toList_signed, List.append_assoc, shown]
  exact Numeral.ofWord?_append lone stops fractional powered negative

/-- The text of a finite number is a numeral, but not that of an integer. -/
theorem exists_numeral_float {x : Float} (finite : x.isFinite = true) :
    ∃ numeral, Numeral.ofWord? (jsonStyle.write x).toList = some numeral ∧
      numeral.isInteger = false := by
  obtain ⟨negative, magnitude, parts, zero⟩ := exists_finite finite .even
  obtain ⟨whole, digit⟩ := isWhole_positional zero
  simp only [ExponentStyle.write, parts]
  split
  · apply exists_numeral_point whole
    · split
      · exact List.forall_mem_singleton.2 rfl
      · exact digit
    · split
      · exact List.cons_ne_nil _ _
      · next some_digit => simpa using some_digit
  · have each : ∀ c ∈ digits magnitude.coefficient, c.isDigit = true :=
      fun _ => isDigit_of_mem_digits
    obtain ⟨first, others, written⟩ :=
      List.exists_cons_of_ne_nil (@Nat.toDigits_ne_nil magnitude.coefficient 10)
    rw [digits, written] at each ⊢
    obtain ⟨head, tail⟩ := List.forall_mem_cons.1 each
    obtain ⟨exponent, powered⟩ :=
      exists_power (magnitude.exponent + ((first :: others).length - 1 : Nat))
    simpa using exists_numeral_power head tail powered negative

end Json

end CommandGrammar
