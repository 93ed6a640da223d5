import Mathlib
import CommandGrammar.Proofs.Json.Numerals
import CommandGrammar.Proofs.Json.Quoted

/-!
# Texts of documents

A document has many texts: blanks may stand before and after every item, name and value. All of them
are read as the document, and what follows the text is left over. The fuel of the reader is twice
the length of the text, and every call inside another one has a shorter text.
-/

namespace CommandGrammar.Written

/-- All characters may stand between tokens. -/
def Blank (cs : List Char) : Prop := ∀ c ∈ cs, isSpace c = true

/-- A document, or what stands between its brackets. -/
inductive Piece where
  /-- A document. -/
  | document (document : Written)
  /-- The items of an array. -/
  | items (items : List Written)
  /-- The members of an object. -/
  | members (members : List (List Char × Written))

/-- A text of a document, or of what stands between its brackets from the first token on. -/
inductive Spells : Piece → List Char → Prop where
  /-- A word is its text. -/
  | word {cs : List Char} (word : isWord cs = true) : Spells (.document (.word cs)) cs
  /-- A string stands between quotes. -/
  | quoted (cs : List Char) :
      Spells (.document (.quoted (cs.flatMap Json.escape)))
        ('"' :: (cs.flatMap Json.escape ++ ['"']))
  /-- An array without items. -/
  | emptyArray {blank : List Char} (space : Blank blank) :
      Spells (.document (.array [])) ('[' :: (blank ++ [']']))
  /-- An array with items. -/
  | array {items : List Written} {before cs : List Char} (space : Blank before)
      (inside : Spells (.items items) cs) :
      Spells (.document (.array items)) ('[' :: (before ++ (cs ++ [']'])))
  /-- An object without members. -/
  | emptyObject {blank : List Char} (space : Blank blank) :
      Spells (.document (.object [])) ('\x7b' :: (blank ++ ['\x7d']))
  /-- An object with members. -/
  | object {members : List (List Char × Written)} {before cs : List Char} (space : Blank before)
      (inside : Spells (.members members) cs) :
      Spells (.document (.object members)) ('\x7b' :: (before ++ (cs ++ ['\x7d'])))
  /-- The last item. -/
  | lastItem {item : Written} {cs after : List Char} (text : Spells (.document item) cs)
      (space : Blank after) : Spells (.items [item]) (cs ++ after)
  /-- An item and further ones. -/
  | nextItem {item : Written} {rest : List Written} {cs after before more : List Char}
      (text : Spells (.document item) cs) (space : Blank after) (gap : Blank before)
      (others : Spells (.items rest) more) :
      Spells (.items (item :: rest)) (cs ++ (after ++ ',' :: (before ++ more)))
  /-- The last member. -/
  | lastMember {value : Written} {cs middle gap after : List Char} (name : List Char)
      (colon : Blank middle) (before : Blank gap) (text : Spells (.document value) cs)
      (space : Blank after) :
      Spells (.members [(name.flatMap Json.escape, value)])
        ('"' :: (name.flatMap Json.escape ++ '"' :: (middle ++ ':' :: (gap ++ (cs ++ after)))))
  /-- A member and further ones. -/
  | nextMember {value : Written} {rest : List (List Char × Written)}
      {cs middle gap after before more : List Char} (name : List Char) (colon : Blank middle)
      (behind : Blank gap) (text : Spells (.document value) cs) (space : Blank after)
      (front : Blank before) (others : Spells (.members rest) more) :
      Spells (.members ((name.flatMap Json.escape, value) :: rest))
        ('"' :: (name.flatMap Json.escape ++ '"' :: (middle ++ ':' :: (gap ++ (cs ++
          (after ++ ',' :: (before ++ more)))))))

variable {piece : Piece} {cs before after rest : List Char} {fuel : Nat}

/-- Blanks before a token are dropped. -/
theorem skipSpace_append (space : Blank before) (solid : ∀ c ∈ cs.head?, isSpace c = false) :
    skipSpace (before ++ cs) = cs :=
  (Text.run_append space solid).2

/-- A character of a word is neither a blank nor a mark. -/
theorem marks_of_inWord {c : Char} (inside : inWord c = true) :
    isSpace c = false ∧ c ≠ '"' ∧ c ≠ '[' ∧ c ≠ ']' ∧ c ≠ '\x7b' ∧ c ≠ '\x7d' := by
  refine ⟨?_, ?_, ?_, ?_, ?_, ?_⟩
  · by_contra space
    simp only [isSpace, Bool.not_eq_false, Bool.or_eq_true, beq_iff_eq] at space
    rcases space with ((rfl | rfl) | rfl) | rfl <;> revert inside <;> decide
  all_goals
    rintro rfl
    revert inside
    decide

/-- The characters of a word may stand in one, and there is one. -/
theorem inWord_of_isWord (word : isWord cs = true) :
    cs ≠ [] ∧ ∀ c ∈ cs, inWord c = true := by
  have named {name : List Char} (check : (!name.isEmpty && name.all inWord) = true) :
      name ≠ [] ∧ ∀ c ∈ name, inWord c = true := by
    simpa using check
  simp only [isWord, Bool.or_eq_true, beq_iff_eq] at word
  rcases word with ((rfl | rfl) | rfl) | numeral
  · exact named rfl
  · exact named rfl
  · exact named rfl
  · obtain ⟨parts, found⟩ := Option.isSome_iff_exists.1 numeral
    refine ⟨?_, Json.Numeral.inWord_of_ofWord? found⟩
    rintro rfl
    cases found

/-- A text begins with a token. -/
theorem Spells.begins (spells : Spells piece cs) :
    ∃ c others, cs = c :: others ∧ isSpace c = false ∧ c ≠ ']' ∧ c ≠ '\x7d' := by
  induction spells with
  | word word =>
    obtain ⟨nonempty, inside⟩ := inWord_of_isWord word
    obtain ⟨c, others, rfl⟩ := List.exists_cons_of_ne_nil nonempty
    obtain ⟨solid, _, _, noBracket, _, noBrace⟩ := marks_of_inWord (inside c List.mem_cons_self)
    exact ⟨c, others, rfl, solid, noBracket, noBrace⟩
  | quoted | emptyArray | array | emptyObject | object | lastMember | nextMember =>
    exact ⟨_, _, rfl, by decide, by decide, by decide⟩
  | lastItem _ _ ih | nextItem _ _ _ _ ih _ =>
    obtain ⟨c, others, rfl, marks⟩ := ih
    exact ⟨c, _, rfl, marks⟩

/-- A text, blanks before it and anything that does not go on with a last word, is read as its
document; what stands between brackets is read up to the closing one. -/
def Piece.Reads : Piece → List Char → Prop
  | .document written, cs => ∀ fuel before rest, Blank before →
      (∀ c ∈ rest.head?, inWord c = false) → 2 * cs.length ≤ fuel →
      readValue fuel (before ++ (cs ++ rest)) = some (written, rest)
  | .items parts, cs => ∀ fuel read before rest, Blank before → 2 * cs.length + 1 ≤ fuel →
      readItems fuel read (before ++ (cs ++ ']' :: rest)) =
        some (.array (read.reverse ++ parts), rest)
  | .members parts, cs => ∀ fuel read before rest, Blank before → 2 * cs.length + 1 ≤ fuel →
      readMembers fuel read (before ++ (cs ++ '\x7d' :: rest)) =
        some (.object (read.reverse ++ parts), rest)

/-- A word is read up to the next character that is not of one. -/
theorem readValue_word (word : isWord cs = true) (space : Blank before)
    (stops : ∀ c ∈ rest.head?, inWord c = false) :
    readValue (fuel + 1) (before ++ (cs ++ rest)) = some (.word cs, rest) := by
  obtain ⟨nonempty, inside⟩ := inWord_of_isWord word
  obtain ⟨run, left⟩ := Text.run_append inside stops
  obtain ⟨c, others, rfl⟩ := List.exists_cons_of_ne_nil nonempty
  obtain ⟨solid, noQuote, noBracket, _, noBrace, _⟩ := marks_of_inWord (inside c List.mem_cons_self)
  rw [readValue, skipSpace_append space (by simpa using solid)]
  rw [List.cons_append] at run left ⊢
  split
  · next same => exact absurd (List.cons.inj same).1 noQuote
  · next same => exact absurd (List.cons.inj same).1 noBracket
  · next same => exact absurd (List.cons.inj same).1 noBrace
  · rw [run, left, if_pos word]

/-- A string is read up to its closing quote. -/
theorem readValue_quoted (space : Blank before) (cs : List Char) :
    readValue (fuel + 1) (before ++ ('"' :: (cs.flatMap Json.escape ++ ['"']) ++ rest)) =
      some (.quoted (cs.flatMap Json.escape), rest) := by
  rw [readValue, skipSpace_append space (by simp; decide)]
  simp [Json.readQuoted_escaped]

/-- After blanks and a mark no word goes on. -/
theorem stops_blank (space : Blank after) {mark : Char} (noWord : inWord mark = false) :
    ∀ c ∈ (after ++ mark :: rest).head?, inWord c = false := by
  cases after with
  | nil => simpa using noWord
  | cons first others =>
    have blank := space first List.mem_cons_self
    rintro c ⟨⟩
    by_contra inside
    rw [Bool.not_eq_false] at inside
    have solid := (marks_of_inWord inside).1
    rw [blank] at solid
    cases solid

/-- Blanks before a mark are dropped. -/
theorem skipSpace_mark (space : Blank before) {mark : Char} (solid : isSpace mark = false) :
    skipSpace (before ++ mark :: rest) = mark :: rest :=
  skipSpace_append space (by simpa using solid)

/-- Blanks before a text are dropped. -/
theorem Spells.skipSpace (spells : Spells piece cs) (space : Blank before) :
    skipSpace (before ++ (cs ++ rest)) = cs ++ rest := by
  obtain ⟨c, others, rfl, solid, _⟩ := spells.begins
  exact skipSpace_mark space solid

/-! ## Steps of the readers -/

/-- An array without items is read up to its bracket. -/
theorem readValue_emptyArray {blank : List Char} (space : Blank before) (inner : Blank blank) :
    readValue (fuel + 1) (before ++ ('[' :: (blank ++ [']']) ++ rest)) =
      some (.array [], rest) := by
  have closes : skipSpace (blank ++ ']' :: rest) = ']' :: rest := skipSpace_mark inner rfl
  rw [readValue, List.cons_append, List.append_assoc, skipSpace_mark space rfl]
  simp only [List.singleton_append, closes]

/-- An array with items is read by reading these. -/
theorem readValue_array {items : List Written} {gap : List Char} (space : Blank before)
    (inner : Blank gap) (inside : Spells (.items items) cs) :
    readValue (fuel + 1) (before ++ ('[' :: (gap ++ (cs ++ [']'])) ++ rest)) =
      readItems fuel [] (cs ++ ']' :: rest) := by
  have opens := @Spells.skipSpace _ _ gap (']' :: rest) inside inner
  obtain ⟨c, others, rfl, _, noBracket, _⟩ := inside.begins
  rw [readValue, List.cons_append, List.append_assoc, List.append_assoc, skipSpace_mark space rfl]
  simp only [List.singleton_append, opens]
  split
  · next same => exact absurd (List.cons.inj same).1 noBracket
  · rfl

/-- An object without members is read up to its brace. -/
theorem readValue_emptyObject {blank : List Char} (space : Blank before) (inner : Blank blank) :
    readValue (fuel + 1) (before ++ ('\x7b' :: (blank ++ ['\x7d']) ++ rest)) =
      some (.object [], rest) := by
  have closes : skipSpace (blank ++ '\x7d' :: rest) = '\x7d' :: rest := skipSpace_mark inner rfl
  rw [readValue, List.cons_append, List.append_assoc, skipSpace_mark space rfl]
  simp only [List.singleton_append, closes]

/-- An object with members is read by reading these. -/
theorem readValue_object {members : List (List Char × Written)} {gap : List Char}
    (space : Blank before) (inner : Blank gap) (inside : Spells (.members members) cs) :
    readValue (fuel + 1) (before ++ ('\x7b' :: (gap ++ (cs ++ ['\x7d'])) ++ rest)) =
      readMembers fuel [] (cs ++ '\x7d' :: rest) := by
  have opens := @Spells.skipSpace _ _ gap ('\x7d' :: rest) inside inner
  obtain ⟨c, others, rfl, _, _, noBrace⟩ := inside.begins
  rw [readValue, List.cons_append, List.append_assoc, List.append_assoc, skipSpace_mark space rfl]
  simp only [List.singleton_append, opens]
  split
  · next same => exact absurd (List.cons.inj same).1 noBrace
  · rfl

/-- With a bracket after an item the array ends. -/
theorem readItems_last {read : List Written} {item : Written} (space : Blank after)
    (value : readValue fuel cs = some (item, after ++ ']' :: rest)) :
    readItems (fuel + 1) read cs = some (.array (item :: read).reverse, rest) := by
  have closes : skipSpace (after ++ ']' :: rest) = ']' :: rest := skipSpace_mark space rfl
  rw [readItems, value]
  simp [closes]

/-- With a comma after an item the array goes on. -/
theorem readItems_next {read : List Written} {item : Written} (space : Blank after)
    (value : readValue fuel cs = some (item, after ++ ',' :: rest)) :
    readItems (fuel + 1) read cs = readItems fuel (item :: read) rest := by
  have goesOn : skipSpace (after ++ ',' :: rest) = ',' :: rest := skipSpace_mark space rfl
  rw [readItems, value]
  simp [goesOn]

section Members

variable {read : List (List Char × Written)} {held : Written} {middle : List Char}

/-- With a brace after a member the object ends. -/
theorem readMembers_last (name : List Char) (space : Blank before) (colon : Blank middle)
    (behind : Blank after) (value : readValue fuel cs = some (held, after ++ '\x7d' :: rest)) :
    readMembers (fuel + 1) read
        (before ++ '"' :: (name.flatMap Json.escape ++ '"' :: (middle ++ ':' :: cs))) =
      some (.object ((name.flatMap Json.escape, held) :: read).reverse, rest) := by
  have separates : skipSpace (middle ++ ':' :: cs) = ':' :: cs := skipSpace_mark colon rfl
  have closes : skipSpace (after ++ '\x7d' :: rest) = '\x7d' :: rest := skipSpace_mark behind rfl
  rw [readMembers, skipSpace_mark space rfl]
  simp [Json.readQuoted_escaped, separates, value, closes]

/-- With a comma after a member the object goes on. -/
theorem readMembers_next (name : List Char) (space : Blank before) (colon : Blank middle)
    (behind : Blank after) (value : readValue fuel cs = some (held, after ++ ',' :: rest)) :
    readMembers (fuel + 1) read
        (before ++ '"' :: (name.flatMap Json.escape ++ '"' :: (middle ++ ':' :: cs))) =
      readMembers fuel ((name.flatMap Json.escape, held) :: read) rest := by
  have separates : skipSpace (middle ++ ':' :: cs) = ':' :: cs := skipSpace_mark colon rfl
  have goesOn : skipSpace (after ++ ',' :: rest) = ',' :: rest := skipSpace_mark behind rfl
  rw [readMembers, skipSpace_mark space rfl]
  simp [Json.readQuoted_escaped, separates, value, goesOn]

end Members

/-! ## Every text -/

/-- Every text of a document is read as the document, and so is what stands between brackets. -/
theorem Spells.reads (spells : Spells piece cs) : piece.Reads cs := by
  have nothing : Blank [] := by simp [Blank]
  induction spells with
  | word word =>
    intro fuel before rest space stops enough
    have positive := List.length_pos_iff.2 (inWord_of_isWord word).1
    obtain ⟨fuel, rfl⟩ := Nat.exists_eq_add_of_le' (show 1 ≤ fuel by omega)
    exact readValue_word word space stops
  | quoted cs =>
    intro fuel before rest space _ enough
    obtain ⟨fuel, rfl⟩ := Nat.exists_eq_add_of_le' (show 1 ≤ fuel by simp at enough; omega)
    exact readValue_quoted space cs
  | emptyArray inner =>
    intro fuel before rest space _ enough
    obtain ⟨fuel, rfl⟩ := Nat.exists_eq_add_of_le' (show 1 ≤ fuel by simp at enough; omega)
    exact readValue_emptyArray space inner
  | array gap inside ih =>
    intro fuel before rest space _ enough
    obtain ⟨fuel, rfl⟩ := Nat.exists_eq_add_of_le' (show 1 ≤ fuel by simp at enough; omega)
    rw [readValue_array space gap inside]
    exact ih fuel [] [] rest nothing (by simp at enough; omega)
  | emptyObject inner =>
    intro fuel before rest space _ enough
    obtain ⟨fuel, rfl⟩ := Nat.exists_eq_add_of_le' (show 1 ≤ fuel by simp at enough; omega)
    exact readValue_emptyObject space inner
  | object gap inside ih =>
    intro fuel before rest space _ enough
    obtain ⟨fuel, rfl⟩ := Nat.exists_eq_add_of_le' (show 1 ≤ fuel by simp at enough; omega)
    rw [readValue_object space gap inside]
    exact ih fuel [] [] rest nothing (by simp at enough; omega)
  | @lastItem item cs after text space ih =>
    intro fuel read before rest front enough
    obtain ⟨fuel, rfl⟩ := Nat.exists_eq_add_of_le' (show 1 ≤ fuel by omega)
    have value := ih fuel before (after ++ ']' :: rest) front (stops_blank space rfl)
      (by simp at enough; omega)
    rw [List.append_assoc, readItems_last space value, List.reverse_cons]
  | @nextItem item items cs after gap more text space front others ih othersIH =>
    intro fuel read before rest blank enough
    obtain ⟨fuel, rfl⟩ := Nat.exists_eq_add_of_le' (show 1 ≤ fuel by omega)
    have value := ih fuel before (after ++ ',' :: (gap ++ (more ++ ']' :: rest))) blank
      (stops_blank space rfl) (by simp at enough; omega)
    have following := othersIH fuel (item :: read) gap rest front (by simp at enough; omega)
    simp only [List.append_assoc, List.cons_append]
    rw [readItems_next space value, following, List.reverse_cons, List.append_assoc,
      List.singleton_append]
  | @lastMember held cs middle gap after name colon behind text space ih =>
    intro fuel read before rest front enough
    obtain ⟨fuel, rfl⟩ := Nat.exists_eq_add_of_le' (show 1 ≤ fuel by omega)
    have value := ih fuel gap (after ++ '\x7d' :: rest) behind (stops_blank space rfl)
      (by simp at enough; omega)
    simp only [List.append_assoc, List.cons_append]
    rw [readMembers_last name front colon space value, List.reverse_cons]
  | @nextMember held members cs middle gap after front more name colon behind text space ahead
      others ih othersIH =>
    intro fuel read before rest blank enough
    obtain ⟨fuel, rfl⟩ := Nat.exists_eq_add_of_le' (show 1 ≤ fuel by omega)
    have value := ih fuel gap (after ++ ',' :: (front ++ (more ++ '\x7d' :: rest))) behind
      (stops_blank space rfl) (by simp at enough; omega)
    have following := othersIH fuel ((name.flatMap Json.escape, held) :: read) front rest ahead
      (by simp at enough; omega)
    simp only [List.append_assoc, List.cons_append]
    rw [readMembers_next name blank colon space value, following, List.reverse_cons,
      List.append_assoc, List.singleton_append]

/-- A text of a document is read as the document. -/
theorem Spells.read? {document : Written} (spells : Spells (.document document) cs) :
    Written.read? cs = some document := by
  have reads := spells.reads (2 * cs.length + 2) [] [] (by simp [Blank]) (by simp) (by omega)
  rw [List.nil_append, List.append_nil] at reads
  rw [Written.read?, reads]
  rfl

end CommandGrammar.Written
