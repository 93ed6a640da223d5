import CommandGrammar.Text.Split

/-!
# Quoting an argument

An argument of safe characters is written as it is; any other is put between
single quotes, each single quote inside it being written between double quotes.
-/

namespace CommandGrammar.Line

/-- A character that needs no quoting: an ASCII letter or digit, a dash, or one of `_@%+=:,./`. -/
def isSafe (c : Char) : Bool :=
  c.isAlphanum || "-_@%+=:,./".toList.contains c

/-- A nonempty text of safe characters. -/
def isSafeWord (cs : List Char) : Bool := !cs.isEmpty && cs.all isSafe

/-- The text between single quotes, a single quote inside it leaving and reopening them. -/
def quotedChars (cs : List Char) : List Char :=
  '\'' :: cs.flatMap (fun c => if c = '\'' then "'\"'\"'".toList else [c]) ++ ['\'']

/-- One argument written so that it is read back as one word. -/
def quote (argument : String) : String :=
  if isSafeWord argument.toList then argument
  else String.ofList (quotedChars argument.toList)

/-- The line that passes the arguments. -/
def joinArguments (arguments : List String) : String :=
  Text.join " " (arguments.map quote)

end CommandGrammar.Line
