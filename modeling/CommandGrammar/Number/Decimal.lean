import CommandGrammar.Number.Integer

/-!
# Reading binary64 numbers

A decimal literal is an integer coefficient times a power of ten; its value is
the nearest binary64 number. The names of infinity and of the undefined number
are accepted in any case.
-/

namespace CommandGrammar.Number

/-- A decimal number `coefficient * 10 ^ exponent`. -/
structure Decimal where
  /-- All written digits, the point left out. -/
  coefficient : Nat
  /-- Power of ten that scales the coefficient. -/
  exponent : Int
deriving DecidableEq, Repr

/-- Positive infinity. -/
def infinity : Float := 1.0 / 0.0

/-- The undefined number. -/
def undefined : Float := 0.0 / 0.0

/-- The power of ten above a decimal: the number is less than ten to that power and, unless it
is zero, at least a tenth of it. -/
def Decimal.magnitude (decimal : Decimal) : Int :=
  (Nat.toDigits 10 decimal.coefficient).length + decimal.exponent

/-- The nearest binary64 number, infinity above the largest one. Numbers far outside the range
of binary64 are decided by their magnitude alone. -/
def Decimal.toFloat (decimal : Decimal) : Float :=
  if decimal.coefficient = 0 ∨ decimal.magnitude < -400 then 0
  else if 400 < decimal.magnitude then infinity
  else Float.ofScientific decimal.coefficient (decimal.exponent < 0) decimal.exponent.natAbs

/-- Reads a signed power of ten: an optional sign and at least one digit. -/
def readExponent (cs : List Char) : Option Int :=
  let magnitude (digits : List Char) : Option Nat :=
    if digits.isEmpty then none else natural? digits
  match cs with
  | '+' :: digits => (magnitude digits).map Int.ofNat
  | '-' :: digits => (magnitude digits).map fun n => -Int.ofNat n
  | digits => (magnitude digits).map Int.ofNat

/-- Reads a literal without sign: digits with at most one point among or beside
them, then perhaps `e` and a power of ten. -/
def readDecimal (cs : List Char) : Option Decimal := do
  let whole := cs.takeWhile Char.isDigit
  let rest := cs.dropWhile Char.isDigit
  let (fraction, rest) := match rest with
    | '.' :: rest => (rest.takeWhile Char.isDigit, rest.dropWhile Char.isDigit)
    | rest => ([], rest)
  let digits := whole ++ fraction
  if digits.isEmpty then none
  else
    let exponent ← match rest with
      | [] => some 0
      | 'e' :: power => readExponent power
      | 'E' :: power => readExponent power
      | _ => none
    some ⟨(natural? digits).getD 0, exponent - fraction.length⟩

/-- Why a text is no number. -/
inductive FloatFault where
  /-- There is no character. -/
  | empty
  /-- The characters are no literal. -/
  | invalid
deriving DecidableEq, Repr

/-- The wording of a fault. -/
def FloatFault.message : FloatFault → String
  | .empty => "cannot parse float from empty string"
  | .invalid => "invalid float literal"

/-- Reads a number without sign. -/
def readUnsigned (cs : List Char) : Except FloatFault Float :=
  let name := cs.map Char.toLower
  if name = "inf".toList ∨ name = "infinity".toList then .ok infinity
  else if name = "nan".toList then .ok undefined
  else match readDecimal cs with
    | some decimal => .ok decimal.toFloat
    | none => .error .invalid

/-- Reads a binary64 number, sign and literal. -/
def readFloat (text : String) : Except FloatFault Float :=
  match text.toList with
  | [] => .error .empty
  | '+' :: cs => readUnsigned cs
  | '-' :: cs => (readUnsigned cs).map (- ·)
  | cs => readUnsigned cs

end CommandGrammar.Number
