import Mathlib
import CommandGrammar.Value.Nested

/-!
# Dotted paths

A dotted path is a list of keys with dots between them. As long as the keys have no dots in them,
the path tells them; every path tells some keys.
-/

namespace CommandGrammar

/-- A key that a dotted path can have: it is not empty and has no dot in it. -/
def IsKey (key : String) : Prop := key ≠ "" ∧ '.' ∉ key.toList

instance (key : String) : Decidable (IsKey key) := inferInstanceAs (Decidable (_ ∧ _))

namespace Text

/-- A piece without separators is not cut. -/
theorem pieces_append {separator : Char} {piece rest : List Char} (free : separator ∉ piece) :
    pieces separator (piece ++ separator :: rest) = piece :: pieces separator rest := by
  induction piece with
  | nil => simp [pieces]
  | cons c cs ih =>
    have differs : c ≠ separator := fun same => free (same ▸ List.mem_cons_self)
    have later := ih fun inside => free (List.mem_cons_of_mem _ inside)
    rw [List.cons_append, pieces, if_neg differs, later]

/-- A text without separators is one piece. -/
theorem pieces_of_free {separator : Char} {cs : List Char} (free : separator ∉ cs) :
    pieces separator cs = [cs] := by
  induction cs with
  | nil => rfl
  | cons c cs ih =>
    have differs : c ≠ separator := fun same => free (same ▸ List.mem_cons_self)
    have later := ih fun inside => free (List.mem_cons_of_mem _ inside)
    rw [pieces, if_neg differs, later]

/-- Two texts or more are joined one after the other. -/
theorem join_cons_cons (separator text next : String) (others : List String) :
    join separator (text :: next :: others) =
      text ++ separator ++ join separator (next :: others) :=
  rfl

/-- Two pieces or more are joined one after the other. -/
theorem joinPieces_cons_cons (separator : Char) (piece next : List Char)
    (others : List (List Char)) : joinPieces separator (piece :: next :: others) =
      piece ++ separator :: joinPieces separator (next :: others) :=
  rfl

/-- Pieces without separators are those of the text that joins them. -/
theorem pieces_joinPieces {separator : Char} {parts : List (List Char)} (some_part : parts ≠ [])
    (free : ∀ part ∈ parts, separator ∉ part) :
    pieces separator (joinPieces separator parts) = parts := by
  induction parts with
  | nil => exact absurd rfl some_part
  | cons part rest ih =>
    have own := free part List.mem_cons_self
    cases rest with
    | nil => exact pieces_of_free own
    | cons next others =>
      have later := ih (List.cons_ne_nil _ _) fun other member =>
        free other (List.mem_cons_of_mem _ member)
      rw [joinPieces_cons_cons, pieces_append own, later]

/-- The characters of joined texts. -/
theorem toList_join (texts : List String) :
    (join "." texts).toList = joinPieces '.' (texts.map String.toList) := by
  induction texts with
  | nil => rfl
  | cons text rest ih =>
    cases rest with
    | nil => rfl
    | cons next others =>
      have dot : ".".toList = ['.'] := by decide
      rw [join_cons_cons, String.toList_append, String.toList_append, ih, dot, List.map_cons,
        List.map_cons, List.map_cons, joinPieces_cons_cons, List.append_assoc,
        List.singleton_append]

/-- Keys without dots are the segments of the path that joins them. -/
theorem segments_join {keys : List String} (some_key : keys ≠ [])
    (free : ∀ key ∈ keys, '.' ∉ key.toList) : segments (join "." keys) = keys := by
  have parts : ∀ part ∈ keys.map String.toList, '.' ∉ part := by
    intro part member
    obtain ⟨key, listed, rfl⟩ := List.mem_map.1 member
    exact free key listed
  rw [segments, split, toList_join, pieces_joinPieces (by simpa using some_key) parts,
    List.map_map]
  simp [Function.comp_def]

/-- A path joins its segments. -/
theorem join_segments (path : String) : join "." (segments path) = path := by
  apply String.toList_injective
  rw [toList_join, segments, split, List.map_map]
  have same : (String.toList ∘ String.ofList) = id := funext fun cs => String.toList_ofList
  rw [same, List.map_id, joinPieces_pieces]

/-- A path has a segment. -/
theorem segments_ne_nil (path : String) : segments path ≠ [] := by
  simpa [segments, split] using pieces_ne_nil '.' path.toList

end Text

/-- A path of keys is extended by a key at the end. -/
theorem extendPath_join {keys : List String} (nonempty : ∀ key ∈ keys, key ≠ "") (key : String) :
    extendPath (Text.join "." keys) key = Text.join "." (keys ++ [key]) := by
  have longer (first : String) (rest : List String) :
      Text.join "." (first :: rest ++ [key]) = Text.join "." (first :: rest) ++ "." ++ key := by
    induction rest generalizing first with
    | nil => rfl
    | cons next others ih =>
      rw [List.cons_append, List.cons_append, Text.join_cons_cons, ← List.cons_append, ih,
        Text.join_cons_cons]
      simp only [String.append_assoc]
  cases keys with
  | nil => rfl
  | cons first rest =>
    have filled : Text.join "." (first :: rest) ≠ "" := by
      intro empty
      have cs := congrArg String.toList empty
      cases rest with
      | nil => exact nonempty first List.mem_cons_self empty
      | cons next others => simp [Text.join_cons_cons] at cs
    rw [extendPath, if_neg filled, longer]

end CommandGrammar
