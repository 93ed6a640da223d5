import CommandGrammar.Number.Notation

/-!
# Dates and times in TOML

A moment is a date, a time or both, and both may have an offset. It is kept as
normal text: the letter T between date and time, no zeros at the end of a fraction of
a second, at most nine places, and the letter Z for the offset zero where it was
written so.
-/

namespace CommandGrammar.Toml

/-- A number of a fixed count of digits within bounds, and the rest of the text. -/
def fixedDigits? (count low high : Nat) (cs : List Char) : Option (Nat × List Char) := do
  let digits := cs.take count
  let n ← Number.natural? digits
  if digits.length = count ∧ low ≤ n ∧ n ≤ high then some (n, cs.drop count) else none

/-- The rest of the text after a character. -/
def after? (c : Char) : List Char → Option (List Char)
  | d :: cs => if c = d then some cs else none
  | [] => none

/-- A number with leading zeros. -/
def zeroPadded (width n : Nat) : List Char :=
  let written := Number.digits n
  List.replicate (width - written.length) '0' ++ written

/-- Number of days of a month. -/
def daysIn (year month : Nat) : Nat :=
  if month = 2 then
    if year % 4 = 0 ∧ (year % 100 ≠ 0 ∨ year % 400 = 0) then 29 else 28
  else if month = 4 ∨ month = 6 ∨ month = 9 ∨ month = 11 then 30 else 31

/-- Reads a date. -/
def readDate? (cs : List Char) : Option (List Char × List Char) := do
  let (year, cs) ← fixedDigits? 4 0 9999 cs
  let (month, cs) ← fixedDigits? 2 1 12 (← after? '-' cs)
  let (day, cs) ← fixedDigits? 2 1 (daysIn year month) (← after? '-' cs)
  return (zeroPadded 4 year ++ '-' :: zeroPadded 2 month ++ '-' :: zeroPadded 2 day, cs)

/-- The fraction of a second without zeros at its end; only nine places are kept. -/
def fractionText (digits : List Char) : List Char :=
  let kept := ((digits.take 9).reverse.dropWhile (· == '0')).reverse
  if kept.isEmpty then [] else '.' :: kept

/-- Reads a time of at most a latest hour. -/
def readTime? (latest : Nat) (cs : List Char) : Option (List Char × List Char) := do
  let (hour, cs) ← fixedDigits? 2 0 latest cs
  let (minute, cs) ← fixedDigits? 2 0 59 (← after? ':' cs)
  let (second, cs) ← fixedDigits? 2 0 60 (← after? ':' cs)
  let text := zeroPadded 2 hour ++ ':' :: zeroPadded 2 minute ++ ':' :: zeroPadded 2 second
  match cs with
  | '.' :: rest =>
    let digits := rest.takeWhile Char.isDigit
    if digits.isEmpty then none
    else some (text ++ fractionText digits, rest.dropWhile Char.isDigit)
  | cs => some (text, cs)

/-- Reads an offset, if one comes next. -/
def readOffset? : List Char → Option (List Char × List Char)
  | 'Z' :: cs | 'z' :: cs => some (['Z'], cs)
  | c :: cs =>
    if c = '+' ∨ c = '-' then do
      let (hours, cs) ← fixedDigits? 2 0 23 cs
      let (minutes, cs) ← fixedDigits? 2 0 59 (← after? ':' cs)
      let sign := if hours = 0 ∧ minutes = 0 then '+' else c
      return (sign :: zeroPadded 2 hours ++ ':' :: zeroPadded 2 minutes, cs)
    else some ([], c :: cs)
  | [] => some ([], [])

/-- A character that may stand between date and time. -/
def joinsTime (c : Char) : Bool := c == 'T' || c == 't' || c == ' '

/-- Reads a moment. -/
def readMoment? (cs : List Char) : Option (String × List Char) :=
  match readDate? cs with
  | none => (readTime? 23 cs).map fun (time, rest) => (String.ofList time, rest)
  | some (date, rest) =>
    let timed : Option (String × List Char) := do
      match rest with
      | c :: rest =>
        if joinsTime c then
          let (time, rest) ← readTime? 23 rest
          let (offset, rest) ← readOffset? rest
          return (String.ofList (date ++ 'T' :: time ++ offset), rest)
        else none
      | [] => none
    timed.or (some (String.ofList date, rest))

/-- Reads an offset of at most a day that ends its text. -/
def readLastOffset? : List Char → Option (List Char)
  | [] => some []
  | ['Z'] | ['z'] => some ['Z']
  | sign :: cs => do
    let (hours, cs) ← fixedDigits? 2 0 99 cs
    let (minutes, cs) ← fixedDigits? 2 0 99 (← after? ':' cs)
    let total := 60 * hours + minutes
    if (sign ≠ '+' ∧ sign ≠ '-') ∨ cs ≠ [] ∨ 24 * 60 < total then none
    else
      let sign := if total = 0 then '+' else sign
      return sign :: zeroPadded 2 (total / 60) ++ ':' :: zeroPadded 2 (total % 60)

/-- The moment that a text holds. The hour may be 24, and the offset is written anew. -/
def momentOf? (cs : List Char) : Option String := do
  if cs[2]? = some ':' then
    let (time, rest) ← readTime? 24 cs
    if rest.isEmpty then some (String.ofList time) else none
  else
    let (date, rest) ← readDate? cs
    match rest with
    | [] => return String.ofList date
    | c :: rest =>
      if joinsTime c then
        let (time, rest) ← readTime? 24 rest
        return String.ofList (date ++ 'T' :: time ++ (← readLastOffset? rest))
      else none

end CommandGrammar.Toml
