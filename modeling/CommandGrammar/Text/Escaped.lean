import CommandGrammar.Text.Unprintable
import CommandGrammar.Text.Extending

/-!
# Escaped texts

Messages and grammar listings show a text between double quotes in a form that
hides nothing: the quote, the backslash and the common controls have short
escapes, and every character without a form of its own is shown by its number.
-/

namespace CommandGrammar.Text

/-- Some range holds the number. -/
def inRanges (ranges : List (Nat × Nat)) (n : Nat) : Bool :=
  ranges.any fun range => range.1 ≤ n && n ≤ range.2

/-- A character that is shown by its number: one without visible form, or one that joins
the character before it. -/
def isHidden (c : Char) : Bool :=
  inRanges unprintableRanges c.toNat || inRanges extendingRanges c.toNat

/-- A character as it stands in an escaped text. -/
def escapeChar (c : Char) : List Char :=
  if c = '"' then ['\\', '"']
  else if c = '\\' then ['\\', '\\']
  else if c = '\n' then ['\\', 'n']
  else if c = '\x0d' then ['\\', 'r']
  else if c = '\t' then ['\\', 't']
  else if c = '\x00' then ['\\', '0']
  else if isHidden c then '\\' :: 'u' :: '\x7b' :: Nat.toDigits 16 c.toNat ++ ['\x7d']
  else [c]

/-- The text between double quotes, escaped. -/
def escaped (text : String) : String :=
  "\"" ++ String.ofList (text.toList.flatMap escapeChar) ++ "\""

end CommandGrammar.Text
