/-!
# Splitting at a separator

Dotted paths and comma lists are cut at every occurrence of one separator
character. The cut keeps empty pieces, so that joining gives the text back.
-/

namespace CommandGrammar.Text

/-- The pieces of a text between the occurrences of a separator. -/
def pieces (separator : Char) : List Char → List (List Char)
  | [] => [[]]
  | c :: cs =>
    if c = separator then [] :: pieces separator cs
    else match pieces separator cs with
      | [] => [[c]]
      | piece :: rest => (c :: piece) :: rest

/-- A cut text has at least one piece. -/
theorem pieces_ne_nil (separator : Char) (cs : List Char) : pieces separator cs ≠ [] := by
  cases cs with
  | nil => simp [pieces]
  | cons c cs =>
    simp only [pieces]
    split
    · simp
    · split <;> simp

/-- Writes the separator between the pieces. -/
def joinPieces (separator : Char) : List (List Char) → List Char
  | [] => []
  | [piece] => piece
  | piece :: rest => piece ++ separator :: joinPieces separator rest

/-- Joining the pieces gives the text back. -/
theorem joinPieces_pieces (separator : Char) (cs : List Char) :
    joinPieces separator (pieces separator cs) = cs := by
  induction cs with
  | nil => rfl
  | cons c cs ih =>
    simp only [pieces]
    split
    · next same =>
      cases h : pieces separator cs with
      | nil => exact absurd h (pieces_ne_nil separator cs)
      | cons piece rest => rw [h] at ih; simp [joinPieces, ih, same]
    · cases h : pieces separator cs with
      | nil => exact absurd h (pieces_ne_nil separator cs)
      | cons piece rest =>
        rw [h] at ih
        cases rest with
        | nil => simpa [joinPieces] using ih
        | cons next rest => simpa [joinPieces] using ih

/-- The pieces of a string between the occurrences of a separator. -/
def split (separator : Char) (text : String) : List String :=
  (pieces separator text.toList).map String.ofList

/-- The segments of a dotted path. -/
def segments (path : String) : List String := split '.' path

/-- The texts with a separator text between them. -/
def join (separator : String) : List String → String
  | [] => ""
  | [text] => text
  | text :: rest => text ++ separator ++ join separator rest

end CommandGrammar.Text
