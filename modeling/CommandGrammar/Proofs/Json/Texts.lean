import Mathlib
import CommandGrammar.Proofs.Json.Decimals
import CommandGrammar.Proofs.Json.Scalars
import CommandGrammar.Proofs.Json.Spelled

/-!
# Reading back what was written

Both texts of a document, the indented one and the one without blanks, are texts of the same words,
strings and brackets, so reading either gives these back. What they stand for is the document, but
for its binary64 numbers: of a number the text shows the shortest digits, and reading these may give
another number. Documents that nest deeper than a dialect allows stand for nothing.
-/

namespace CommandGrammar.Json

open Written

mutual

/-- The words, strings and brackets of a document. -/
def written : Json → Written
  | .null => .word "null".toList
  | .bool b => .word (if b then "true" else "false").toList
  | .integer n => .word (toString n).toList
  | .float x => .word (Number.jsonStyle.write x).toList
  | .string text => .quoted (text.toList.flatMap escape)
  | .array items => .array (writtenItems items)
  | .object members => .object (writtenMembers members)

/-- The words, strings and brackets of items. -/
def writtenItems : List Json → List Written
  | [] => []
  | item :: rest => item.written :: writtenItems rest

/-- The words, strings and brackets of members, under quoted names. -/
def writtenMembers : List (String × Json) → List (List Char × Written)
  | [] => []
  | (name, value) :: rest => (name.toList.flatMap escape, value.written) :: writtenMembers rest

end

/-- A scalar can be written: an integer fits 64 bits, signed or not, and a binary64 number is
finite. -/
def Fits : Json → Prop
  | .integer n => -2 ^ 63 ≤ n ∧ n < 2 ^ 64
  | .float x => x.isFinite = true
  | .null | .bool _ | .string _ | .array _ | .object _ => True

/-- What the text of a binary64 number is read as. -/
def reread? (x : Float) : Option Float :=
  (Numeral.ofWord? (Number.jsonStyle.write x).toList).bind Numeral.scaled?

/-! ## Both texts -/

/-- A numeral is a word. -/
theorem isWord_of_ofWord? {cs : List Char} {numeral : Numeral}
    (found : Numeral.ofWord? cs = some numeral) : isWord cs = true := by
  simp [isWord, found]

/-- A new line is blank. -/
theorem blank_newline (level : Nat) : Blank (newline level).toList := by
  intro c member
  rw [newline, String.toList_ofList] at member
  rcases List.mem_cons.1 member with rfl | later
  · rfl
  · rw [List.eq_of_mem_replicate later]
    rfl

/-- A text between quotes. -/
theorem spells_quoted (text : String) :
    Spells (.document (.quoted (text.toList.flatMap escape))) (quoted text).toList := by
  simpa [quoted] using Spells.quoted text.toList

/-- The words of scalars. -/
theorem spells_word {document : Json} {cs : List Char} (same : document.written = .word cs)
    (fits : document.Fits) : Spells (.document document.written) cs := by
  rw [same]
  apply Spells.word
  cases document with
  | null =>
    cases same
    rfl
  | bool b =>
    cases same
    cases b <;> rfl
  | integer n =>
    cases same
    obtain ⟨numeral, found, _⟩ := exists_numeral_integer fits.1 fits.2
    exact isWord_of_ofWord? found
  | float x =>
    cases same
    obtain ⟨numeral, found, _⟩ := exists_numeral_float fits
    exact isWord_of_ofWord? found
  | string | array | object => cases same

mutual

/-- The indented text of a document is one of its texts. -/
theorem spells_indented (level : Nat) (document : Json)
    (fits : ∀ scalar ∈ document.scalars, scalar.Fits) :
    Spells (.document document.written) (document.indented level).toList := by
  cases document with
  | null => exact spells_word rfl (fits _ (by simp [scalars]))
  | bool b =>
    rw [indented]
    exact spells_word (by cases b <;> rfl) (fits _ (by simp [scalars]))
  | integer n => exact spells_word rfl (fits _ (by simp [scalars]))
  | float x => exact spells_word rfl (fits _ (by simp [scalars]))
  | string text => exact spells_quoted text
  | array items =>
    cases items with
    | nil =>
      have text : ((Json.array []).indented level).toList = '[' :: ([] ++ [']']) := by
        rw [indented]
        rfl
      rw [text]
      exact .emptyArray (by simp [Blank])
    | cons first rest =>
      obtain ⟨cs, same, inside⟩ := spells_indentedItems (level + 1) (first :: rest)
        (List.cons_ne_nil _ _) (blank_newline level) fits
      have text : ((Json.array (first :: rest)).indented level).toList =
          '[' :: ((newline (level + 1)).toList ++ (cs ++ [']'])) := by
        rw [← List.append_assoc, ← same, indented]
        · simp
        · nofun
      rw [text]
      exact .array (blank_newline _) inside
  | object members =>
    cases members with
    | nil =>
      have text : ((Json.object []).indented level).toList = '\x7b' :: ([] ++ ['\x7d']) := by
        rw [indented]
        rfl
      rw [text]
      exact .emptyObject (by simp [Blank])
    | cons first rest =>
      obtain ⟨cs, same, inside⟩ := spells_indentedMembers (level + 1) (first :: rest)
        (List.cons_ne_nil _ _) (blank_newline level) fits
      have text : ((Json.object (first :: rest)).indented level).toList =
          '\x7b' :: ((newline (level + 1)).toList ++ (cs ++ ['\x7d'])) := by
        rw [← List.append_assoc, ← same, indented]
        · simp
        · nofun
      rw [text]
      exact .object (blank_newline _) inside

/-- The indented texts of items are a text of them after a new line. -/
theorem spells_indentedItems (level : Nat) (items : List Json) (some_item : items ≠ [])
    {after : List Char} (space : Blank after) (fits : ∀ scalar ∈ itemScalars items, scalar.Fits) :
    ∃ cs, (indentedItems level items).toList ++ after = (newline level).toList ++ cs ∧
      Spells (.items (writtenItems items)) cs := by
  cases items with
  | nil => exact absurd rfl some_item
  | cons first rest =>
    obtain ⟨own, later⟩ := List.forall_mem_append.1 fits
    have head := spells_indented level first own
    by_cases last : rest = []
    · subst last
      refine ⟨(first.indented level).toList ++ after, ?_, .lastItem head space⟩
      simp [indentedItems]
    · obtain ⟨cs, same, others⟩ := spells_indentedItems level rest last space later
      refine ⟨(first.indented level).toList ++ ([] ++ ',' :: ((newline level).toList ++ cs)), ?_,
        .nextItem head (by simp [Blank]) (blank_newline level) others⟩
      rw [← same, indentedItems]
      · simp
      · exact last

/-- The indented texts of members are a text of them after a new line. -/
theorem spells_indentedMembers (level : Nat) (members : List (String × Json))
    (some_member : members ≠ []) {after : List Char} (space : Blank after)
    (fits : ∀ scalar ∈ memberScalars members, scalar.Fits) :
    ∃ cs, (indentedMembers level members).toList ++ after = (newline level).toList ++ cs ∧
      Spells (.members (writtenMembers members)) cs := by
  match members with
  | [] => exact absurd rfl some_member
  | (name, value) :: rest =>
    obtain ⟨own, later⟩ := List.forall_mem_append.1 fits
    have head := spells_indented level value own
    have nothing : Blank [] := by simp [Blank]
    have gap : Blank [' '] := by simp [Blank, isSpace]
    by_cases last : rest = []
    · subst last
      refine ⟨_, ?_, .lastMember name.toList nothing gap head space⟩
      simp [indentedMembers, quoted]
    · obtain ⟨cs, same, others⟩ := spells_indentedMembers level rest last space later
      refine ⟨_, ?_, .nextMember name.toList nothing gap head nothing (blank_newline level) others⟩
      rw [indentedMembers]
      · simp [quoted, same]
      · exact last

end

mutual

/-- The text of a document without blanks is one of its texts. -/
theorem spells_compact (document : Json) (fits : ∀ scalar ∈ document.scalars, scalar.Fits) :
    Spells (.document document.written) document.compact.toList := by
  cases document with
  | null => exact spells_word rfl (fits _ (by simp [scalars]))
  | bool b =>
    rw [compact]
    exact spells_word (by cases b <;> rfl) (fits _ (by simp [scalars]))
  | integer n => exact spells_word rfl (fits _ (by simp [scalars]))
  | float x => exact spells_word rfl (fits _ (by simp [scalars]))
  | string text => exact spells_quoted text
  | array items =>
    cases items with
    | nil =>
      have text : (Json.array []).compact.toList = '[' :: ([] ++ [']']) := by
        rw [compact]
        rfl
      rw [text]
      exact .emptyArray (by simp [Blank])
    | cons first rest =>
      have inside := spells_compactItems (first :: rest) (List.cons_ne_nil _ _) fits
      have text : (Json.array (first :: rest)).compact.toList =
          '[' :: ([] ++ ((Text.join "," (compactItems (first :: rest))).toList ++ [']'])) := by
        simp [compact]
      rw [text]
      exact .array (by simp [Blank]) inside
  | object members =>
    cases members with
    | nil =>
      have text : (Json.object []).compact.toList = '\x7b' :: ([] ++ ['\x7d']) := by
        rw [compact]
        rfl
      rw [text]
      exact .emptyObject (by simp [Blank])
    | cons first rest =>
      have inside := spells_compactMembers (first :: rest) (List.cons_ne_nil _ _) fits
      have text : (Json.object (first :: rest)).compact.toList =
          '\x7b' :: ([] ++ ((Text.join "," (compactMembers (first :: rest))).toList ++
            ['\x7d'])) := by
        simp [compact]
      rw [text]
      exact .object (by simp [Blank]) inside

/-- The texts of items without blanks are a text of them. -/
theorem spells_compactItems (items : List Json) (some_item : items ≠ [])
    (fits : ∀ scalar ∈ itemScalars items, scalar.Fits) :
    Spells (.items (writtenItems items)) (Text.join "," (compactItems items)).toList := by
  cases items with
  | nil => exact absurd rfl some_item
  | cons first rest =>
    obtain ⟨own, later⟩ := List.forall_mem_append.1 fits
    have head := spells_compact first own
    have nothing : Blank [] := by simp [Blank]
    by_cases last : rest = []
    · subst last
      have spells := Spells.lastItem head nothing
      simpa [compactItems, Text.join, writtenItems] using spells
    · have others := spells_compactItems rest last later
      have spells := Spells.nextItem head nothing nothing others
      obtain ⟨next, more, rfl⟩ := List.exists_cons_of_ne_nil last
      simpa [compactItems, Text.join, writtenItems] using spells

/-- The texts of members without blanks are a text of them. -/
theorem spells_compactMembers (members : List (String × Json)) (some_member : members ≠ [])
    (fits : ∀ scalar ∈ memberScalars members, scalar.Fits) :
    Spells (.members (writtenMembers members)) (Text.join "," (compactMembers members)).toList := by
  match members with
  | [] => exact absurd rfl some_member
  | (name, value) :: rest =>
    obtain ⟨own, later⟩ := List.forall_mem_append.1 fits
    have head := spells_compact value own
    have nothing : Blank [] := by simp [Blank]
    by_cases last : rest = []
    · subst last
      have spells := Spells.lastMember name.toList nothing nothing head nothing
      simpa [compactMembers, Text.join, quoted, writtenMembers] using spells
    · have others := spells_compactMembers rest last later
      have spells := Spells.nextMember name.toList nothing nothing head nothing nothing others
      obtain ⟨next, more, rfl⟩ := List.exists_cons_of_ne_nil last
      simpa [compactMembers, Text.join, quoted, writtenMembers] using spells

end

/-! ## What the texts stand for -/

/-- The text of an integer that fits stands for it. -/
theorem word?_integer {n : Int} (fits : (Json.integer n).Fits) :
    dialect.word? (toString n).toList = some (.integer n) := by
  obtain ⟨numeral, found, stands⟩ := exists_numeral_integer fits.1 fits.2
  exact (ofWord?_of_numeral found _).trans stands

/-- The text of a finite number stands for a binary64 number, if it is read as one at all. -/
theorem word?_float {x : Float} (fits : (Json.float x).Fits) :
    dialect.word? (Number.jsonStyle.write x).toList = (reread? x).map .float := by
  obtain ⟨numeral, found, noInteger⟩ := exists_numeral_float fits
  have stands := ofWord?_of_numeral found Numeral.number?
  rw [Numeral.number?, noInteger] at stands
  simpa [reread?, found, dialect] using stands

mutual

/-- What is written for a document stands for the document with its binary64 numbers reread, if it
does not nest too deep. -/
theorem document?_written (levels : Nat) (document : Json)
    (fits : ∀ scalar ∈ document.scalars, scalar.Fits) :
    dialect.document? levels document.written =
      if document.nesting ≤ levels then document.changed? reread? else none := by
  cases document with
  | null => cases levels <;> rfl
  | bool b => cases levels <;> cases b <;> rfl
  | integer n =>
    have word := @word?_integer n (fits _ (by simp [scalars]))
    simpa [written, Dialect.document?, nesting, changed?] using word
  | float x =>
    have word := @word?_float x (fits _ (by simp [scalars]))
    simpa [written, Dialect.document?, nesting, changed?] using word
  | string text =>
    have text := unescape_escaped text
    simp [written, Dialect.document?, nesting, changed?, dialect, text]
  | array items =>
    cases levels with
    | zero => simp [written, Dialect.document?, nesting]
    | succ levels =>
      simp only [written, Dialect.document?, nesting, changed?, items?_written levels items fits,
        Nat.add_le_add_iff_right]
      split <;> rfl
  | object members =>
    cases levels with
    | zero => simp [written, Dialect.document?, nesting]
    | succ levels =>
      simp only [written, Dialect.document?, nesting, changed?,
        members?_written levels members fits, Nat.add_le_add_iff_right]
      split <;> rfl

/-- What is written for items stands for them with their binary64 numbers reread, if none nests too
deep. -/
theorem items?_written (levels : Nat) (items : List Json)
    (fits : ∀ scalar ∈ itemScalars items, scalar.Fits) :
    dialect.items? levels (writtenItems items) =
      if itemsNesting items ≤ levels then itemsChanged? reread? items else none := by
  cases items with
  | nil => simp [writtenItems, Dialect.items?, itemsNesting, itemsChanged?]
  | cons first rest =>
    obtain ⟨own, later⟩ := List.forall_mem_append.1 fits
    simp only [writtenItems, Dialect.items?, itemsNesting, itemsChanged?, Nat.max_le,
      document?_written levels first own, items?_written levels rest later]
    by_cases shallow : first.nesting ≤ levels <;> by_cases others : itemsNesting rest ≤ levels <;>
      simp [shallow, others]

/-- What is written for members stands for them with their binary64 numbers reread, if none nests
too deep. -/
theorem members?_written (levels : Nat) (members : List (String × Json))
    (fits : ∀ scalar ∈ memberScalars members, scalar.Fits) :
    dialect.members? levels (writtenMembers members) =
      if membersNesting members ≤ levels then membersChanged? reread? members else none := by
  match members with
  | [] => simp [writtenMembers, Dialect.members?, membersNesting, membersChanged?]
  | (name, value) :: rest =>
    obtain ⟨own, later⟩ := List.forall_mem_append.1 fits
    have known : dialect.text? (name.toList.flatMap escape) = some name := unescape_escaped name
    simp only [writtenMembers, Dialect.members?, membersNesting, membersChanged?, Nat.max_le, known,
      document?_written levels value own, members?_written levels rest later]
    by_cases shallow : value.nesting ≤ levels <;>
      by_cases others : membersNesting rest ≤ levels <;> simp [shallow, others]

end

/-- Either text of a document is read as the words, strings and brackets of the document. -/
theorem written_of_text (document : Json) (fits : ∀ scalar ∈ document.scalars, scalar.Fits) :
    ∀ text ∈ [document.compact, document.pretty],
      Written.read? text.toList = some document.written := by
  simpa using ⟨(spells_compact document fits).read?, (spells_indented 0 document fits).read?⟩

/-- Either text of a document is read as the document with its binary64 numbers reread, if it does
not nest too deep. -/
theorem read?_text (document : Json) (fits : ∀ scalar ∈ document.scalars, scalar.Fits) :
    ∀ text ∈ [document.compact, document.pretty], Json.read? text =
      if document.nesting ≤ dialect.levels then document.changed? reread? else none := by
  intro text member
  rw [Json.read?, written_of_text document fits text member]
  exact document?_written dialect.levels document fits

end CommandGrammar.Json
