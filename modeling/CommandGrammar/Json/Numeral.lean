import CommandGrammar.Number.Integer

/-!
# Numerals of JSON

A numeral is an optional minus sign and digits without leading zero, then perhaps a
point with digits and a power of ten. This module takes a numeral apart; what number it
stands for depends on the format around it.
-/

namespace CommandGrammar.Json

/-- The parts of a numeral. -/
structure Numeral where
  /-- It begins with a minus sign. -/
  negative : Bool
  /-- The digits before the point. -/
  whole : List Char
  /-- The digits after the point. -/
  fraction : List Char
  /-- The power of ten, where one is written. -/
  power : Option Int
deriving DecidableEq, Repr

namespace Numeral

/-- The number before the point. -/
def wholeNumber (numeral : Numeral) : Nat := (Number.natural? numeral.whole).getD 0

/-- There is neither a point nor a power of ten. -/
def isInteger (numeral : Numeral) : Bool := numeral.fraction.isEmpty && numeral.power.isNone

/-- The sign of a number, and the rest of the text. -/
def takeMinus : List Char → Bool × List Char
  | '-' :: cs => (true, cs)
  | cs => (false, cs)

/-- The point and the digits after it, if there is a point, and the rest of the text. -/
def takeFraction? : List Char → Option (List Char × List Char)
  | '.' :: cs =>
    let digits := cs.takeWhile Char.isDigit
    if digits.isEmpty then none else some (digits, cs.dropWhile Char.isDigit)
  | cs => some ([], cs)

/-- The number of a power of ten after its letter, if the rest of the text is one. -/
def signed? : List Char → Option Int
  | '+' :: digits => if digits.isEmpty then none else (Number.natural? digits).map Int.ofNat
  | '-' :: digits =>
    if digits.isEmpty then none else (Number.natural? digits).map fun n => -Int.ofNat n
  | digits => if digits.isEmpty then none else (Number.natural? digits).map Int.ofNat

/-- The power of ten at the end of a numeral, if there is one. -/
def power? : List Char → Option (Option Int)
  | [] => some none
  | 'e' :: cs | 'E' :: cs => (signed? cs).map some
  | _ => none

/-- The numeral that a word is. -/
def ofWord? (word : List Char) : Option Numeral := do
  let (negative, cs) := takeMinus word
  let whole := cs.takeWhile Char.isDigit
  if whole.isEmpty ∨ (whole.head? = some '0' ∧ whole.length ≠ 1) then none
  let (fraction, rest) ← takeFraction? (cs.dropWhile Char.isDigit)
  return ⟨negative, whole, fraction, ← power? rest⟩

end Numeral

end CommandGrammar.Json
