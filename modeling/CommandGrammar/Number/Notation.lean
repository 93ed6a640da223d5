import CommandGrammar.Number.Shortest

/-!
# Written numbers

Three ways of writing a binary64 number share its shortest digits: plain
positional text, and the two exponent forms of structured output, which leave
positional text outside a range of magnitudes and always show a fraction.
-/

namespace CommandGrammar.Number

/-- The digits of a natural number in base ten. -/
def digits (n : Nat) : List Char := Nat.toDigits 10 n

/-- Positional text of a decimal: integer part and, if there is one, fraction. -/
def positional (decimal : Decimal) : List Char × List Char :=
  let written := digits decimal.coefficient
  if 0 ≤ decimal.exponent then (written ++ List.replicate decimal.exponent.toNat '0', [])
  else
    let places := (-decimal.exponent).toNat
    let padded := List.replicate (places + 1 - written.length) '0' ++ written
    (padded.take (padded.length - places), padded.drop (padded.length - places))

/-- A minus sign for a negative number. -/
def signed (negative : Bool) (cs : List Char) : String :=
  String.ofList (if negative then '-' :: cs else cs)

/-- Positional text without exponent; whole numbers have no point. -/
def plain (x : Float) : String :=
  match Parts.ofFloat .up x with
  | .undefined => "NaN"
  | .infinite negative => signed negative "inf".toList
  | .finite negative magnitude =>
    let (whole, fraction) := positional magnitude
    signed negative (if fraction.isEmpty then whole else whole ++ '.' :: fraction)

/-- How a number with an exponent is written, and what stands for the others. -/
structure ExponentStyle where
  /-- Text before a positive exponent. -/
  positiveSign : String
  /-- Text of the undefined number. -/
  undefined : String
  /-- Text of positive infinity. -/
  infinite : String
  /-- Text of negative infinity. -/
  negativeInfinite : String

/-- Positional text with a fraction while the leading digit stands between the fifth
place after the point and the sixteenth before it, otherwise one digit, the
fraction and a power of ten. -/
def ExponentStyle.write (style : ExponentStyle) (x : Float) : String :=
  match Parts.ofFloat .even x with
  | .undefined => style.undefined
  | .infinite negative => if negative then style.negativeInfinite else style.infinite
  | .finite negative magnitude =>
    let written := digits magnitude.coefficient
    let leading := magnitude.exponent + (written.length - 1 : Nat)
    if -5 ≤ leading ∧ leading ≤ 15 then
      let (whole, fraction) := positional magnitude
      signed negative (whole ++ '.' :: (if fraction.isEmpty then ['0'] else fraction))
    else
      let fraction := if written.length = 1 then [] else '.' :: written.drop 1
      let power := if 0 ≤ leading then style.positiveSign.toList ++ digits leading.toNat
        else '-' :: digits (-leading).toNat
      signed negative (written.take 1 ++ fraction ++ 'e' :: power)

/-- JSON: a plus sign before a positive exponent, and null where there is no number. -/
def jsonStyle : ExponentStyle := ⟨"+", "null", "null", "null"⟩

/-- YAML: no plus sign, and names that begin with a point. -/
def yamlStyle : ExponentStyle := ⟨"", ".nan", ".inf", "-.inf"⟩

end CommandGrammar.Number
