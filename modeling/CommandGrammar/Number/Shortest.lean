import CommandGrammar.Number.Decimal

/-!
# Shortest decimals

A finite binary64 number is written with the fewest digits that read back as the
same number, and of the candidates with that many digits the nearest one. The
numbers that read back as `m * 2 ^ q` form an interval around it; the search tries
the two neighbours of the number on ever finer decimal grids, in exact arithmetic.
-/

namespace CommandGrammar.Number

/-- Which of two equally near candidates is taken. -/
inductive Tie where
  /-- The larger one. -/
  | up
  /-- The one whose last digit is even. -/
  | even
deriving DecidableEq, Repr

/-- Number of fractions between a power of two and the next one: they have 52 bits. -/
def fractionCount : Nat := 0x10000000000000

/-- A positive number and the interval that rounds to it, in units of `2 ^ unit`. -/
structure Interval where
  /-- Lower end. -/
  low : Nat
  /-- The number. -/
  middle : Nat
  /-- Upper end. -/
  high : Nat
  /-- Binary exponent of the unit. -/
  unit : Int
  /-- The ends round to the number as well. -/
  closed : Bool
deriving DecidableEq, Repr

/-- The interval of a positive finite number, from the fields of its encoding. -/
def Interval.ofFields (exponentField fraction : Nat) : Interval :=
  let significand := if exponentField = 0 then fraction else fractionCount + fraction
  let exponent : Int := (if exponentField = 0 then 1 else exponentField : Nat) - 1075
  let step := if fraction = 0 ∧ 1 < exponentField then 1 else 2
  ⟨4 * significand - step, 4 * significand, 4 * significand + 2, exponent - 2,
    significand % 2 = 0⟩

/-- Number of decimal digits of the integer part, or one less than the number of zeros
after the point, negated, for a number `numerator / denominator` below one. -/
def decimalPoint (numerator denominator : Nat) : Int :=
  if denominator ≤ numerator then (Nat.toDigits 10 (numerator / denominator)).length
  else
    let ratio := (denominator + numerator - 1) / numerator
    if ratio = 1 then 1 else 1 - ((Nat.toDigits 10 (ratio - 1)).length : Int)

/-- The scales that compare `n * 10 ^ grid` with `m * 2 ^ unit`, as `n * left` with `m * right`. -/
def scales (grid unit : Int) : Nat × Nat :=
  (Nat.pow 10 grid.toNat * Nat.pow 2 (-unit).toNat,
    Nat.pow 10 (-grid).toNat * Nat.pow 2 unit.toNat)

/-- The best multiple of `10 ^ grid` inside the interval, if there is one. -/
def Interval.onGrid? (interval : Interval) (tie : Tie) (grid : Int) : Option Nat :=
  let (left, right) := scales grid interval.unit
  let target := interval.middle * right
  let below := target / left
  let inside (candidate : Nat) : Bool :=
    let point := candidate * left
    if interval.closed then interval.low * right ≤ point && point ≤ interval.high * right
    else interval.low * right < point && point < interval.high * right
  let fromBelow := target - below * left
  let fromAbove := (below + 1) * left - target
  let takeAbove := fromAbove < fromBelow ∨
    (fromAbove = fromBelow ∧ (tie = .up ∨ below % 2 = 1))
  match inside below, inside (below + 1) with
  | true, true => some (if takeAbove then below + 1 else below)
  | true, false => some below
  | false, true => some (below + 1)
  | false, false => none

/-- Moves trailing zeros of the coefficient into the exponent; the fuel bounds their number. -/
def Decimal.normalize : Nat → Decimal → Decimal
  | 0, decimal => decimal
  | fuel + 1, decimal =>
    if decimal.coefficient % 10 = 0 ∧ decimal.coefficient ≠ 0 then
      normalize fuel ⟨decimal.coefficient / 10, decimal.exponent + 1⟩
    else decimal

/-- The first grid, from one digit to seventeen, that has a candidate. -/
def Interval.shortest (interval : Interval) (tie : Tie) : Decimal :=
  let point := decimalPoint (interval.middle * Nat.pow 2 interval.unit.toNat)
    (Nat.pow 2 (-interval.unit).toNat)
  let found := (List.range' 1 17).findSome? fun (count : Nat) =>
    (interval.onGrid? tie (point - count)).map fun coefficient =>
      (⟨coefficient, point - count⟩ : Decimal)
  (found.getD ⟨interval.middle, 0⟩).normalize 17

/-- The parts of a number that its text shows. -/
inductive Parts where
  /-- The undefined number. -/
  | undefined
  /-- Infinity with a sign. -/
  | infinite (negative : Bool)
  /-- A finite number; zero has the coefficient zero. -/
  | finite (negative : Bool) (magnitude : Decimal)
deriving DecidableEq, Repr

/-- Sign and shortest decimal of a number. -/
def Parts.ofFloat (tie : Tie) (x : Float) : Parts :=
  let bits := x.toBits.toNat
  let negative : Bool := UInt64.size ≤ 2 * bits
  let exponentField := bits / fractionCount % 2048
  let fraction := bits % fractionCount
  if exponentField = 2047 then
    if fraction = 0 then .infinite negative else .undefined
  else if exponentField = 0 ∧ fraction = 0 then .finite negative ⟨0, 0⟩
  else .finite negative ((Interval.ofFields exponentField fraction).shortest tie)

end CommandGrammar.Number
