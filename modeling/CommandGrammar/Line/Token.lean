import CommandGrammar.Line.Word

/-!
# Tokens of a command line

A word becomes one token, or three when it joins a trigger and a value by an
equals sign: the trigger, the sign and the rest. The joined form counts only
where the trigger and the sign are bare and the trigger is a known one, so values
such as `-a=b` pass through whole.
-/

namespace CommandGrammar.Line

/-- A token and the byte offset of its first character in the line. -/
structure Token where
  /-- The text, without quotes and backslashes. -/
  text : String
  /-- Byte offset in the line. -/
  offset : Nat
deriving DecidableEq, Repr

/-- The trigger before the first bare equals sign: a dash and at least one more character. -/
def Word.trigger? (word : Word) : Option (List Char) :=
  let plain := word.chars.take word.bare
  let flag := plain.takeWhile (· ≠ '=')
  if flag.length < plain.length ∧ 2 ≤ flag.length ∧ flag.head? = some '-' then some flag else none

/-- Number of bytes of the characters in UTF-8. -/
def byteLength : List Char → Nat
  | [] => 0
  | c :: cs => c.utf8Size + byteLength cs

/-- The tokens of one word. -/
def Word.tokens (isTrigger : String → Bool) (word : Word) : List Token :=
  let whole := [⟨String.ofList word.chars, word.offset⟩]
  match word.trigger? with
  | none => whole
  | some flag =>
    if isTrigger (String.ofList flag) then
      let sign := word.offset + byteLength flag
      [⟨String.ofList flag, word.offset⟩, ⟨"=", sign⟩,
        ⟨String.ofList (word.chars.drop (flag.length + 1)), sign + 1⟩]
    else whole

/-- The tokens of a line, joined words cut where they begin with an accepted trigger. -/
def tokenizeWith (isTrigger : String → Bool) (line : String) : Except LexFault (List Token) :=
  (words line.toList).map (·.flatMap (Word.tokens isTrigger))

/-- The tokens of a line, every joined word cut. -/
def tokenize (line : String) : Except LexFault (List Token) := tokenizeWith (fun _ => true) line

end CommandGrammar.Line
