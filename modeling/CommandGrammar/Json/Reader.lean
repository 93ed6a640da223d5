import CommandGrammar.Json.Written

/-!
# Reading JSON

Of words and strings as JSON has them, and of documents that nest at most 127 deep. A
number with a point, a power of ten or more than 64 bits is scaled in binary64: its
first digits that fit 64 bits are multiplied or divided by a power of ten, so the last
bit of a long number may differ from the nearest one.
-/

namespace CommandGrammar.Json

/-- The first of two code units that make up one character. -/
def isHighUnit (n : Nat) : Bool := 0xD800 ≤ n && n < 0xDC00

/-- The second of two code units that make up one character. -/
def isLowUnit (n : Nat) : Bool := 0xDC00 ≤ n && n < 0xE000

/-- Replaces the escapes of a string; `read` holds the characters so far, the latest first. -/
def unescape (read : List Char) : List Char → Option String
  | [] => some (String.ofList read.reverse)
  | '\\' :: 'u' :: a :: b :: c :: d :: cs => do
    let unit ← Written.codeUnit? a b c d
    if isHighUnit unit then
      match cs with
      | '\\' :: 'u' :: e :: f :: g :: h :: cs =>
        let low ← Written.codeUnit? e f g h
        if isLowUnit low then
          unescape (Char.ofNat (0x10000 + (unit - 0xD800) * 0x400 + (low - 0xDC00)) :: read) cs
        else none
      | _ => none
    else if isLowUnit unit then none
    else unescape (Char.ofNat unit :: read) cs
  | '\\' :: e :: cs => do unescape ((← Written.escaped? e) :: read) cs
  | c :: cs => unescape (c :: read) cs

/-- Appends the digits to a number while it fits 64 bits; also how many digits were left over. -/
def significand : Nat → List Char → Nat × Nat
  | value, [] => (value, 0)
  | value, c :: cs =>
    let next := 10 * value + (c.toNat - '0'.toNat)
    if next < UInt64.size then significand next cs else (value, cs.length + 1)

/-- Scales by a power of ten, dividing in steps of `1e308`; none if the result is infinite. -/
def scale (x : Float) (exponent : Int) : Nat → Option Float
  | 0 => some x
  | fuel + 1 =>
    if exponent.natAbs ≤ 308 then
      let power := Float.ofScientific 1 false exponent.natAbs
      if 0 ≤ exponent then
        if (x * power).isInf then none else some (x * power)
      else some (x / power)
    else if x == 0.0 then some x
    else if 0 ≤ exponent then none
    else scale (x / Float.ofScientific 1 false 308) (exponent + 308) fuel

/-- The scaled number of a numeral. Digits before the point that do not fit count as powers of
ten; those after the point are taken as long as each of them fits. -/
def Numeral.scaled? (numeral : Numeral) : Option Float := do
  let (value, left) := significand 0 numeral.whole
  let (value, unread) := significand value numeral.fraction
  let taken := numeral.fraction.length - unread
  let magnitude ← scale value.toUInt64.toFloat (numeral.power.getD 0 + left - taken) 8
  return if numeral.negative then -magnitude else magnitude

/-- The number of a numeral: an integer if it is written as one and fits 64 bits, signed or not.
Zero with a sign is no integer. -/
def Numeral.number? (numeral : Numeral) : Option Json :=
  let n := numeral.wholeNumber
  let fits := if numeral.negative then n ≠ 0 ∧ 2 * n ≤ UInt64.size else n < UInt64.size
  if numeral.isInteger ∧ fits then
    some (.integer (if numeral.negative then -n else n))
  else numeral.scaled?.map .float

/-- The document of a word, given what numerals stand for. -/
def ofWord? (number? : Numeral → Option Json) (word : List Char) : Option Json :=
  if word = "null".toList then some .null
  else if word = "true".toList then some (.bool true)
  else if word = "false".toList then some (.bool false)
  else (Numeral.ofWord? word).bind number?

/-- What words and strings stand for in JSON. -/
def dialect : Dialect where
  word? := ofWord? Numeral.number?
  text? := unescape []
  levels := 127

/-- The document that a text holds. -/
def read? (text : String) : Option Json := do
  dialect.document? dialect.levels (← Written.read? text.toList)

end CommandGrammar.Json
