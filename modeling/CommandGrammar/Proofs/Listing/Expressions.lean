import Mathlib
import CommandGrammar.Grammar.Listing
import CommandGrammar.Proofs.Listing.Escaped

/-!
# Reading expressions

A reader of listings takes an expression from its text. A quote opens a literal, a
parenthesis several parts, and a run of name characters is the value terminal or the name of
a rule, whose number stands at its end. The marks of options and repetitions follow what they
are about, so the reader wraps them around it one after the other; the first separator
after a part tells a choice from a sequence.
-/

namespace CommandGrammar

namespace Listing

/-! ## Names -/

/-- A character of the name of a rule: an ASCII letter or digit, or an underscore. -/
def isNameChar (c : Char) : Bool := c.isAlphanum || c == '_'

/-- The number at the end of a name. -/
def numberOf (name : List Char) : NodeId :=
  Text.numeral 10 (name.reverse.takeWhile Char.isDigit).reverse

/-- The name of a rule ends in an underscore and the number of its node. -/
def Names (name : String) (id : NodeId) : Prop :=
  ∃ plain : List Char, (∀ c ∈ plain, isNameChar c = true) ∧
    name.toList = plain ++ '_' :: Nat.toDigits 10 id

/-- A text does not go on with the name or the number before it. -/
def Apart (rest : List Char) : Prop := ∀ c ∈ rest.head?, isNameChar c = false

/-- A digit may stand in a name. -/
theorem isNameChar_of_isDigit {c : Char} (digit : c.isDigit = true) : isNameChar c = true := by
  simp [isNameChar, Char.isAlphanum, digit]

/-- A text that begins with another character does not go on with a name. -/
theorem apart_cons {c : Char} (rest : List Char) (other : isNameChar c = false) :
    Apart (c :: rest) := by
  rintro _ ⟨⟩
  exact other

variable {name : String} {id : NodeId}

/-- A name has name characters only. -/
theorem Names.chars (named : Names name id) : ∀ c ∈ name.toList, isNameChar c = true := by
  obtain ⟨plain, each, same⟩ := named
  intro c member
  rw [same] at member
  rcases List.mem_append.1 member with before | after
  · exact each c before
  · rcases List.mem_cons.1 after with rfl | digit
    · rfl
    · exact isNameChar_of_isDigit
        (Nat.isDigit_of_mem_toDigits (by decide) (by decide) digit)

/-- A name tells the number of its node. -/
theorem Names.numberOf (named : Names name id) : numberOf name.toList = id := by
  obtain ⟨plain, _, same⟩ := named
  have digits : ∀ c ∈ (Nat.toDigits 10 id).reverse, c.isDigit = true := fun c member =>
    Nat.isDigit_of_mem_toDigits (by decide) (by decide) (List.mem_reverse.1 member)
  have number := (@Text.run_append _ _ ('_' :: plain.reverse) digits (by simp)).1
  rw [Listing.numberOf, same]
  simp only [List.reverse_append, List.reverse_cons, List.append_assoc, List.singleton_append]
  rw [number, List.reverse_reverse, Text.numeral_toDigits (by decide) (by decide)]

/-- A name is not the word for the value terminal, which has no underscore. -/
theorem Names.ne_value (named : Names name id) : name.toList ≠ "value".toList := by
  obtain ⟨plain, _, same⟩ := named
  intro equal
  have mark : '_' ∈ "value".toList := by
    rw [← equal, same]
    simp
  revert mark
  decide

/-- A name is not empty. -/
theorem Names.ne_nil (named : Names name id) : name.toList ≠ [] := by
  obtain ⟨plain, _, same⟩ := named
  simp [same]

/-- Names tell the numbers of their nodes. -/
theorem Names.unique {other : NodeId} (named : Names name id) (again : Names name other) :
    id = other := named.numberOf.symm.trans again.numberOf

/-! ## Bounds and marks -/

/-- Reads the bounds of a repetition. -/
def readBounds : List Char → Option ((Nat × Option Nat) × List Char)
  | '*' :: rest => some ((0, none), rest)
  | '+' :: rest => some ((1, none), rest)
  | ' ' :: '~' :: ' ' :: rest =>
    let min := Text.numeral 10 (rest.takeWhile Char.isDigit)
    match rest.dropWhile Char.isDigit with
    | '.' :: '.' :: rest =>
      let digits := rest.takeWhile Char.isDigit
      let max := if digits.isEmpty then none else some (Text.numeral 10 digits)
      some ((min, max), rest.dropWhile Char.isDigit)
    | _ => none
  | _ => none

/-- Reads a mark after an expression and puts the expression under it. -/
def readMark (expr : Expr) : List Char → Option (Expr × List Char)
  | '?' :: rest => some (.optional expr, rest)
  | cs => (readBounds cs).map fun ((min, max), rest) => (.repetition expr min max, rest)

/-- Reads all marks after an expression; the fuel bounds their number. -/
def readMarks : Nat → Expr → List Char → Option (Expr × List Char)
  | 0, _, _ => none
  | fuel + 1, expr, cs =>
    match readMark expr cs with
    | some (marked, rest) => readMarks fuel marked rest
    | none => some (expr, cs)

/-- The digits of a number end where no digit follows. -/
theorem run_toDigits (n : Nat) {rest : List Char} (stops : ∀ c ∈ rest.head?, c.isDigit = false) :
    (Nat.toDigits 10 n ++ rest).takeWhile Char.isDigit = Nat.toDigits 10 n ∧
      (Nat.toDigits 10 n ++ rest).dropWhile Char.isDigit = rest :=
  Text.run_append (fun _ member => Nat.isDigit_of_mem_toDigits (by decide) (by decide) member) stops

/-- No digit goes on after a number. -/
theorem Apart.isDigit {rest : List Char} (apart : Apart rest) :
    ∀ c ∈ rest.head?, c.isDigit = false := by
  intro c first
  rw [Bool.eq_false_iff]
  intro digit
  have other := apart c first
  rw [isNameChar_of_isDigit digit] at other
  cases other

/-- Bounds are read from their digits. -/
theorem readBounds_toDigits (min : Nat) (max : Option Nat) {rest : List Char}
    (apart : Apart rest) :
    readBounds (' ' :: '~' :: ' ' ::
      (Nat.toDigits 10 min ++ '.' :: '.' :: (max.elim [] (Nat.toDigits 10) ++ rest))) =
        some ((min, max), rest) := by
  obtain ⟨least, after⟩ :=
    @run_toDigits min ('.' :: '.' :: (max.elim [] (Nat.toDigits 10) ++ rest)) (by simp)
  rw [readBounds, least, after, Text.numeral_toDigits (by decide) (by decide)]
  cases max with
  | none =>
    obtain ⟨nothing, last⟩ := @Text.run_append Char.isDigit [] rest (by simp) apart.isDigit
    rw [List.nil_append] at nothing last
    simp only [Option.elim_none, List.nil_append, nothing, last, List.isEmpty_nil, if_true]
  | some max =>
    obtain ⟨greatest, last⟩ := run_toDigits max apart.isDigit
    simp only [Option.elim_some, greatest, last, List.isEmpty_iff, Nat.toDigits_ne_nil, if_false,
      Text.numeral_toDigits (by decide : 1 < 10) (by decide)]

/-- Bounds are read from their text. -/
theorem readBounds_boundsText (min : Nat) (max : Option Nat) {rest : List Char}
    (apart : Apart rest) :
    readBounds ((Grammar.boundsText min max).toList ++ rest) = some ((min, max), rest) := by
  unfold Grammar.boundsText
  split
  · rfl
  · rfl
  · simpa [Nat.toString_eq_ofList_toDigits] using readBounds_toDigits _ none apart
  · simpa [Nat.toString_eq_ofList_toDigits] using readBounds_toDigits _ (some _) apart

/-- Bounds begin with a sign of their own. -/
theorem exists_boundsText (min : Nat) (max : Option Nat) :
    ∃ c others, (Grammar.boundsText min max).toList = c :: others ∧
      isNameChar c = false ∧ c ≠ '?' := by
  unfold Grammar.boundsText
  split
  · exact ⟨'*', [], rfl, rfl, by decide⟩
  · exact ⟨'+', [], rfl, rfl, by decide⟩
  · exact ⟨' ', _, by rw [String.toList_append, String.toList_append]; rfl, rfl, by decide⟩
  · exact ⟨' ', _, by simp only [String.toList_append]; rfl, rfl, by decide⟩

/-- Bounds do not go on with the name before them. -/
theorem apart_boundsText (min : Nat) (max : Option Nat) (rest : List Char) :
    Apart ((Grammar.boundsText min max).toList ++ rest) := by
  obtain ⟨c, others, same, sign, _⟩ := exists_boundsText min max
  rw [same]
  exact apart_cons _ sign

/-- A repetition is read from its bounds. -/
theorem readMark_boundsText (inner : Expr) (min : Nat) (max : Option Nat) {rest : List Char}
    (apart : Apart rest) :
    readMark inner ((Grammar.boundsText min max).toList ++ rest) =
      some (.repetition inner min max, rest) := by
  have bounds := readBounds_boundsText min max apart
  obtain ⟨c, others, same, _, other⟩ := exists_boundsText min max
  rw [same, List.cons_append] at bounds ⊢
  rw [readMark, bounds]
  · rfl
  · rintro _ ⟨⟩
    exact other rfl

/-! ## Parts and lines -/

/-- What stands between the parts of a choice or of a sequence. -/
def separator (barred : Bool) : List Char := if barred then [' ', '|', ' '] else [' ']

/-- A choice or a sequence. -/
def several (barred : Bool) (items : List Expr) : Expr := if barred then .alt items else .seq items

mutual

/-- Reads an expression as it stands among others. The fuel bounds the depth, the number of parts
and their lengths. -/
def readPart : Nat → List Char → Option (Expr × List Char)
  | 0, _ => none
  | fuel + 1, '"' :: rest =>
    (Text.readEscaped fuel rest).bind fun (text, rest) =>
      readMarks fuel (.literal (String.ofList text)) rest
  | fuel + 1, '(' :: rest =>
    (readLine fuel rest).bind fun (inner, rest) => readMarks fuel inner (rest.drop 1)
  | fuel + 1, cs =>
    let name := cs.takeWhile isNameChar
    let expr := if name = "value".toList then .value else .rule (numberOf name)
    readMarks fuel expr (cs.dropWhile isNameChar)

/-- Reads parts with a separator before each of them. -/
def readOthers (barred : Bool) : Nat → List Char → Option (List Expr × List Char)
  | 0, _ => none
  | fuel + 1, cs =>
    if (separator barred).isPrefixOf cs then
      (readPart fuel (cs.drop (separator barred).length)).bind fun (item, rest) =>
        (readOthers barred fuel rest).map fun (others, rest) => (item :: others, rest)
    else some ([], cs)

/-- Reads an expression that stands alone, in parentheses or in the line of a production. -/
def readLine : Nat → List Char → Option (Expr × List Char)
  | 0, _ => none
  | fuel + 1, cs =>
    (readPart fuel cs).bind fun (first, rest) =>
      let barred := (separator true).isPrefixOf rest
      (readOthers barred fuel rest).map fun (others, rest) =>
        (if others.isEmpty then first else several barred (first :: others), rest)

end

/-- An expression in which every choice and sequence has several items, and every rule that is
referred to has the name of its node. -/
inductive Spells (grammar : Grammar) : Expr → Prop where
  /-- A literal. -/
  | literal (text : String) : Spells grammar (.literal text)
  /-- The value terminal. -/
  | value : Spells grammar .value
  /-- A rule. -/
  | rule {id : NodeId} (named : Names (grammar.nameOf id) id) : Spells grammar (.rule id)
  /-- A choice or a sequence. -/
  | several (barred : Bool) (first : Expr) {others : List Expr} (more : others ≠ [])
      (head : Spells grammar first) (tail : ∀ item ∈ others, Spells grammar item) :
      Spells grammar (several barred (first :: others))
  /-- An option. -/
  | optional {inner : Expr} (body : Spells grammar inner) : Spells grammar (.optional inner)
  /-- A repetition. -/
  | repetition {inner : Expr} (body : Spells grammar inner) (min : Nat) (max : Option Nat) :
      Spells grammar (.repetition inner min max)

variable {grammar : Grammar}

/-- The texts of expressions that follow others, each after a separator. -/
def othersText (grammar : Grammar) (barred : Bool) (others : List Expr) : List Char :=
  others.flatMap fun item => separator barred ++ (grammar.exprText true item).toList

/-- The text of joined parts. -/
theorem toList_join (barred : Bool) (first : Expr) (others : List Expr) :
    (Text.join (String.ofList (separator barred))
      (grammar.exprTexts (first :: others))).toList =
      (grammar.exprText true first).toList ++ othersText grammar barred others := by
  induction others generalizing first with
  | nil => simp [Grammar.exprTexts, Text.join, othersText]
  | cons second rest ih =>
    have later := ih second
    rw [Grammar.exprTexts, Grammar.exprTexts, Text.join, String.toList_append,
      String.toList_append, ← Grammar.exprTexts, later]
    · simp [othersText]
    · rintro ⟨⟩

/-- The text of a choice or a sequence. -/
theorem toList_several (barred nested : Bool) (first : Expr) (others : List Expr) :
    (grammar.exprText nested (several barred (first :: others))).toList =
      if nested then
        '(' :: ((grammar.exprText true first).toList ++ othersText grammar barred others ++ [')'])
      else (grammar.exprText true first).toList ++ othersText grammar barred others := by
  rw [← toList_join]
  cases barred <;> cases nested <;>
    simp [several, separator, Grammar.exprText, Grammar.parenthesized]

/-! ## Where expressions begin and end -/

/-- The text of an expression begins neither like bounds nor like a separator. -/
theorem Spells.begins {expr : Expr} (spells : Spells grammar expr) :
    ∃ c rest, (grammar.exprText true expr).toList = c :: rest ∧ c ≠ '~' ∧ c ≠ '|' := by
  induction spells with
  | literal text =>
    exact ⟨'"', _, Text.toList_escaped text, by decide, by decide⟩
  | value => exact ⟨'v', _, by rw [Grammar.exprText]; rfl, by decide, by decide⟩
  | rule named =>
    obtain ⟨c, rest, same⟩ := List.exists_cons_of_ne_nil named.ne_nil
    have plain := named.chars c (by simp [same])
    rw [Grammar.exprText]
    refine ⟨c, rest, same, ?_, ?_⟩ <;> rintro rfl <;> revert plain <;> decide
  | several barred first more head tail =>
    exact ⟨'(', _, toList_several barred true first _, by decide, by decide⟩
  | optional body ih | repetition body min max ih =>
    obtain ⟨c, rest, same, plain⟩ := ih
    exact ⟨c, _, by rw [Grammar.exprText, String.toList_append, same, List.cons_append], plain⟩

/-- What follows an expression: it goes on with no name and no mark. -/
structure Ends (rest : List Char) : Prop where
  /-- It goes on with no name. -/
  apart : Apart rest
  /-- It goes on with no mark. -/
  unmarked : ∀ expr, readMark expr rest = none

/-- What closes a line: the end of a production, or the end of parentheses. -/
def Closes (rest : List Char) : Prop := ∃ c others, rest = c :: others ∧ (c = '\n' ∨ c = ')')

/-- Where no mark follows, there is none to read. -/
theorem Ends.readMarks {rest : List Char} (ends : Ends rest) (expr : Expr) :
    Returns (readMarks · expr rest) (expr, rest) := by
  refine .of_succ (.of_forall fun fuel => ?_)
  rw [Listing.readMarks, ends.unmarked]

/-- An expression ends where its line closes. -/
theorem Closes.ends {rest : List Char} (closes : Closes rest) : Ends rest := by
  obtain ⟨c, others, rfl, rfl | rfl⟩ := closes
  · exact ⟨apart_cons others rfl, fun _ => rfl⟩
  · exact ⟨apart_cons others rfl, fun _ => rfl⟩

/-- An expression ends where others follow or its line closes. -/
theorem ends_others {others : List Expr} (barred : Bool)
    (spell : ∀ item ∈ others, Spells grammar item) {rest : List Char} (closes : Closes rest) :
    Ends (othersText grammar barred others ++ rest) := by
  cases others with
  | nil => exact closes.ends
  | cons item others =>
    obtain ⟨c, more, same, other, _⟩ := (spell item List.mem_cons_self).begins
    rw [othersText, List.flatMap_cons, same]
    cases barred with
    | true => exact ⟨apart_cons _ rfl, fun _ => rfl⟩
    | false =>
      refine ⟨apart_cons _ rfl, fun expr => ?_⟩
      simp [separator, readMark, readBounds, other]

/-! ## Round trip -/

/-- An expression is read from its text, and then the marks after it. -/
def Reads (grammar : Grammar) (expr : Expr) : Prop :=
  ∀ rest result, Apart rest → Returns (readMarks · expr rest) result →
    Returns (readPart · ((grammar.exprText true expr).toList ++ rest)) result

/-- An expression is read up to its end. -/
theorem Reads.of_ends {expr : Expr} (reads : Reads grammar expr) {rest : List Char}
    (ends : Ends rest) :
    Returns (readPart · ((grammar.exprText true expr).toList ++ rest)) (expr, rest) :=
  reads rest _ ends.apart (ends.readMarks expr)

/-- The items after the first one are read from their text. -/
theorem readOthers_othersText {others : List Expr} (barred : Bool)
    (spell : ∀ item ∈ others, Spells grammar item) (read : ∀ item ∈ others, Reads grammar item)
    {rest : List Char} (closes : Closes rest) :
    Returns (readOthers barred · (othersText grammar barred others ++ rest)) (others, rest) := by
  induction others with
  | nil =>
    have none_left : (separator barred).isPrefixOf rest = false := by
      obtain ⟨c, more, rfl, rfl | rfl⟩ := closes <;> cases barred <;> rfl
    refine .of_succ (.of_forall fun fuel => ?_)
    rw [othersText, List.flatMap_nil, List.nil_append, readOthers, none_left]
    rfl
  | cons item others ih =>
    have after := ends_others barred (fun other member => spell other (.tail _ member)) closes
    have tail := ih (fun other member => spell other (.tail _ member))
      fun other member => read other (.tail _ member)
    have head := (read item List.mem_cons_self).of_ends after
    have next : othersText grammar barred (item :: others) ++ rest = separator barred ++
        ((grammar.exprText true item).toList ++ (othersText grammar barred others ++ rest)) := by
      simp [othersText]
    have here (after : List Char) : (separator barred).isPrefixOf (separator barred ++ after) =
        true := List.isPrefixOf_iff_prefix.2 (List.prefix_append _ _)
    rw [next]
    refine .of_succ ?_
    simp only [readOthers, here, if_true, List.drop_left]
    exact head.bind (tail.map _)

/-- The first separator tells a choice from a sequence. -/
theorem isPrefixOf_othersText {others : List Expr} (barred : Bool)
    (spell : ∀ item ∈ others, Spells grammar item) (more : others = [] → barred = false)
    {rest : List Char} (closes : Closes rest) :
    (separator true).isPrefixOf (othersText grammar barred others ++ rest) = barred := by
  cases others with
  | nil =>
    obtain ⟨c, others, rfl, rfl | rfl⟩ := closes <;> rw [more rfl] <;> rfl
  | cons item others =>
    obtain ⟨c, after, same, _, other⟩ := (spell item List.mem_cons_self).begins
    rw [othersText, List.flatMap_cons, same]
    cases barred with
    | true => rfl
    | false => simp [separator, List.isPrefixOf, other.symm]

/-- Several parts, or one alone, are read from the text of their line. -/
theorem readLine_parts {first : Expr} {others : List Expr} (barred : Bool)
    (read : Reads grammar first) (spell : ∀ item ∈ others, Spells grammar item)
    (each : ∀ item ∈ others, Reads grammar item) (more : others = [] → barred = false)
    {rest : List Char} (closes : Closes rest) :
    Returns
      (readLine ·
        ((grammar.exprText true first).toList ++ othersText grammar barred others ++ rest))
      (if others.isEmpty then first else several barred (first :: others), rest) := by
  have head := read.of_ends (ends_others barred spell closes)
  have tail := readOthers_othersText barred spell each closes
  have kind := isPrefixOf_othersText barred spell more closes
  refine .of_succ ?_
  simp only [readLine, List.append_assoc]
  refine head.bind ?_
  simp only [kind]
  exact tail.map _

/-- A word is read up to its end. -/
theorem readPart_word {word rest : List Char} (begun : word ≠ [])
    (each : ∀ c ∈ word, isNameChar c = true) (apart : Apart rest) (fuel : Nat) :
    readPart (fuel + 1) (word ++ rest) = readMarks fuel
      (if word = "value".toList then .value else .rule (numberOf word)) rest := by
  obtain ⟨whole, after⟩ := Text.run_append each apart
  cases word with
  | nil => contradiction
  | cons c others =>
    have first := each c List.mem_cons_self
    rw [List.cons_append] at whole after ⊢
    rw [readPart, whole, after]
    · rintro _ ⟨⟩
      revert first
      decide
    · rintro _ ⟨⟩
      revert first
      decide

/-- An expression is read from its text. -/
theorem Spells.reads {expr : Expr} (spells : Spells grammar expr) : Reads grammar expr := by
  induction spells with
  | literal text =>
    intro rest result _ marks
    have read := Text.readEscaped_escaped text.toList rest
    rw [Grammar.exprText, Text.toList_escaped, List.append_assoc, List.cons_append,
      List.singleton_append]
    refine .of_succ (read.bind ?_)
    simpa only [String.ofList_toList] using marks
  | value =>
    intro rest result apart marks
    have each : ∀ c ∈ "value".toList, isNameChar c = true := List.all_eq_true.1 rfl
    refine .of_succ (marks.congr fun fuel => ?_)
    rw [Grammar.exprText, readPart_word (by decide) each apart, if_pos rfl]
  | rule named =>
    intro rest result apart marks
    refine .of_succ (marks.congr fun fuel => ?_)
    rw [Grammar.exprText, readPart_word named.ne_nil named.chars apart, if_neg named.ne_value,
      named.numberOf]
  | several barred first more head tail first_reads others_read =>
    intro rest result _ marks
    have closes : Closes (')' :: rest) := ⟨')', rest, rfl, .inr rfl⟩
    have inner := readLine_parts barred first_reads tail others_read (absurd · more) closes
    rw [List.isEmpty_eq_false_iff.2 more] at inner
    rw [toList_several, if_pos rfl, List.cons_append, List.append_assoc, List.singleton_append]
    exact .of_succ (inner.bind marks)
  | optional body ih =>
    intro rest result _ marks
    rw [Grammar.exprText, String.toList_append, List.append_assoc]
    exact ih ('?' :: rest) result (apart_cons rest rfl) (.of_succ marks)
  | @repetition inner body min max ih =>
    intro rest result apart marks
    rw [Grammar.exprText, String.toList_append, List.append_assoc]
    refine ih _ result (apart_boundsText min max rest) (.of_succ (marks.congr fun fuel => ?_))
    rw [readMarks, readMark_boundsText inner min max apart]

/-- An expression alone on its line is read from its text. -/
theorem Spells.readLine_alone {expr : Expr} (spells : Spells grammar expr) {rest : List Char}
    (closes : Closes rest) :
    Returns (readLine · ((grammar.exprText true expr).toList ++ rest)) (expr, rest) := by
  simpa [othersText] using @readLine_parts grammar expr [] false spells.reads (by simp) (by simp)
    (fun _ => rfl) rest closes

/-- An expression is read from its text without parentheses around it. -/
theorem Spells.readLine {expr : Expr} (spells : Spells grammar expr) {rest : List Char}
    (closes : Closes rest) :
    Returns (readLine · ((grammar.exprText false expr).toList ++ rest)) (expr, rest) := by
  have alone := spells.readLine_alone closes
  cases spells with
  | @several barred first others more head tail =>
    have parts := readLine_parts barred head.reads tail
      (fun item member => (tail item member).reads) (absurd · more) closes
    rw [toList_several, if_neg Bool.false_ne_true]
    simpa [more] using parts
  | literal | value | rule | optional | repetition => simpa only [Grammar.exprText] using alone

end Listing

end CommandGrammar
