/-!
# Reading 64-bit integers

An integer is an optional sign and at least one ASCII digit. The characters are
taken from the left and the first one at fault decides the error, so a long run
of digits can overflow before a later letter is seen.
-/

namespace CommandGrammar.Number

/-- Why a text is no 64-bit integer. -/
inductive IntegerFault where
  /-- There is no character. -/
  | empty
  /-- A character is no digit, or a sign stands alone. -/
  | invalidDigit
  /-- The number is above `2 ^ 63 - 1`. -/
  | tooLarge
  /-- The number is below `-2 ^ 63`. -/
  | tooSmall
deriving DecidableEq, Repr

/-- The wording of a fault. -/
def IntegerFault.message : IntegerFault → String
  | .empty => "cannot parse integer from empty string"
  | .invalidDigit => "invalid digit found in string"
  | .tooLarge => "number too large to fit in target type"
  | .tooSmall => "number too small to fit in target type"

/-- The value of an ASCII digit. -/
def digit? (c : Char) : Option Nat :=
  if c.isDigit then some (c.toNat - '0'.toNat) else none

/-- The value of a hexadecimal digit. -/
def hexDigit? (c : Char) : Option Nat :=
  if c.isDigit then some (c.toNat - '0'.toNat)
  else if 'a' ≤ c ∧ c ≤ 'f' then some (c.toNat - 'a'.toNat + 10)
  else if 'A' ≤ c ∧ c ≤ 'F' then some (c.toNat - 'A'.toNat + 10)
  else none

/-- The natural number that the characters spell in base ten, if all are digits. -/
def natural? (cs : List Char) : Option Nat :=
  cs.foldlM (fun value c => (digit? c).map (10 * value + ·)) 0

/-- Appends the digits to a number, as long as it stays in range. -/
def appendDigits (negative : Bool) : Int → List Char → Except IntegerFault Int
  | value, [] => .ok value
  | value, c :: cs =>
    match digit? c with
    | none => .error .invalidDigit
    | some digit =>
      let next := if negative then 10 * value - digit else 10 * value + digit
      if next < Int64.minValue.toInt then .error .tooSmall
      else if Int64.maxValue.toInt < next then .error .tooLarge
      else appendDigits negative next cs

/-- Reads digits, of which there must be one. -/
def readDigits (negative : Bool) : List Char → Except IntegerFault Int
  | [] => .error .invalidDigit
  | cs => appendDigits negative 0 cs

/-- Reads an integer, sign and digits. -/
def readInteger : List Char → Except IntegerFault Int
  | [] => .error .empty
  | '+' :: cs => readDigits false cs
  | '-' :: cs => readDigits true cs
  | cs => readDigits false cs

/-- Reads a 64-bit integer. -/
def readInt64 (text : String) : Except IntegerFault Int64 :=
  (readInteger text.toList).map Int64.ofInt

end CommandGrammar.Number
