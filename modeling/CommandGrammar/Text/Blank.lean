/-!
# Blank characters

The blanks are the characters with the Unicode property White_Space. They
separate the words of a command line, may not stand in a command name, and are
trimmed from the ends of names, list items and configuration lines.
-/

namespace CommandGrammar.Text

/-- First and last code point of each run of blanks. -/
def blankRanges : List (Nat × Nat) :=
  [(0x9, 0xD), (0x20, 0x20), (0x85, 0x85), (0xA0, 0xA0), (0x1680, 0x1680), (0x2000, 0x200A),
    (0x2028, 0x2029), (0x202F, 0x202F), (0x205F, 0x205F), (0x3000, 0x3000)]

/-- A character with the Unicode property White_Space. -/
def isBlank (c : Char) : Bool :=
  blankRanges.any fun range => range.1 ≤ c.toNat && c.toNat ≤ range.2

/-- The property holds of 25 code points. -/
example : blankRanges.foldr (fun range count => range.2 + 1 - range.1 + count) 0 = 25 := by decide

/-- Removes the characters of a class from both ends. -/
def trimBy (drop : Char → Bool) (cs : List Char) : List Char :=
  ((cs.dropWhile drop).reverse.dropWhile drop).reverse

/-- Removes the blanks from both ends. -/
def trim (text : String) : String :=
  String.ofList (trimBy isBlank text.toList)

/-- Removes the blanks from the end. -/
def trimEnd (text : String) : String :=
  String.ofList (text.toList.reverse.dropWhile isBlank).reverse

/-- Every character of the text is blank; the empty text is. -/
def allBlank (text : String) : Bool := text.toList.all isBlank

/-- Some character of the text is blank. -/
def anyBlank (text : String) : Bool := text.toList.any isBlank

end CommandGrammar.Text
