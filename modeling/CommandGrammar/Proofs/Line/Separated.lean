import Mathlib
import CommandGrammar.Proofs.Line.Arguments
import CommandGrammar.Proofs.Line.Laid

/-!
# Words that are cut at their sign

Cutting joined words refines the words of a line and leaves the offsets true. A word is cut exactly
where the line has an accepted trigger and the sign at the offset of the word, each character as it
is; so the trigger and the sign stand where their tokens say. Of a word that is written without
quotes and backslashes this holds of what comes after the sign as well.
-/

namespace CommandGrammar.Line

/-- The text stands in the line at the byte offset. -/
def StandsAt (line text : String) (offset : Nat) : Prop :=
  ∃ before after, line = before ++ text ++ after ∧ before.utf8ByteSize = offset

/-- At the offset the line begins with a trigger that is accepted, and the sign. -/
structure BeginsWith (accepted : String → Bool) (line : String) (offset : Nat) (flag : String) :
    Prop where
  /-- The trigger is accepted. -/
  known : accepted flag = true
  /-- It begins with a dash. -/
  dash : flag.toList.head? = some '-'
  /-- It has at least two bytes. -/
  long : 2 ≤ flag.utf8ByteSize
  /-- The sign behind it is the first one. -/
  free : '=' ∉ flag.toList
  /-- Its characters stand for themselves. -/
  plain : flag.toList.all isPlain = true
  /-- It stands at the offset. -/
  stands : StandsAt line flag offset
  /-- The sign stands right behind it. -/
  sign : StandsAt line "=" (offset + flag.utf8ByteSize)

/-- The tokens of one word of a line: the word as it is, or its trigger, the sign and the rest. -/
inductive Separated (accepted : String → Bool) (line : String) (word : Token) :
    List Token → Prop where
  /-- A word that begins with no accepted trigger and sign is kept. -/
  | kept (apart : ∀ flag, ¬ BeginsWith accepted line word.offset flag) :
      Separated accepted line word [word]
  /-- A word that begins with an accepted trigger and the sign is cut. -/
  | cut {flag value : String} (begins : BeginsWith accepted line word.offset flag)
      (joined : word.text = flag ++ "=" ++ value) :
      Separated accepted line word [⟨flag, word.offset⟩, ⟨"=", word.offset + flag.utf8ByteSize⟩,
        ⟨value, word.offset + flag.utf8ByteSize + 1⟩]

/-- At the offset the line has characters that stand for themselves, up to a blank or the end. -/
structure Unquoted (line : String) (offset : Nat) (written : String) : Prop where
  /-- The characters stand for themselves. -/
  plain : written.toList.all isPlain = true
  /-- They stand at the offset. Behind them a blank stands, or nothing. -/
  stands : ∃ before after, line = before ++ written ++ after ∧ before.utf8ByteSize = offset ∧
    ∀ c ∈ after.toList.head?, Text.isBlank c = true

variable {accepted : String → Bool} {line text flag : String} {place offset : Nat} {word : Word}
  {before written after : List Char}

/-! ## Where texts stand -/

/-- Parts of a text that begin with equally many bytes are the same. -/
theorem append_inj_of_byteLength {front other rest tail : List Char}
    (same : front ++ rest = other ++ tail) (size : byteLength front = byteLength other) :
    front = other ∧ rest = tail := by
  induction front generalizing other with
  | nil =>
    cases other with
    | nil => exact ⟨rfl, same⟩
    | cons c others =>
      have positive := c.utf8Size_pos
      simp only [byteLength] at size
      omega
  | cons c others ih =>
    cases other with
    | nil =>
      have positive := c.utf8Size_pos
      simp only [byteLength] at size
      omega
    | cons d further =>
      rw [List.cons_append, List.cons_append, List.cons.injEq] at same
      obtain ⟨rfl, same⟩ := same
      have smaller : byteLength others = byteLength further := by
        simp only [byteLength] at size
        omega
      obtain ⟨rfl, rfl⟩ := ih same smaller
      exact ⟨rfl, rfl⟩

/-- What stands at a place of the line is what its rest begins with. -/
theorem standsAt_iff {rest : List Char} (split : line.toList = before ++ rest) :
    StandsAt line text (byteLength before) ↔ text.toList <+: rest := by
  constructor
  · rintro ⟨front, tail, rfl, size⟩
    rw [String.toList_append, String.toList_append, List.append_assoc] at split
    rw [← byteLength_toList] at size
    obtain ⟨_, rfl⟩ := append_inj_of_byteLength split size
    exact List.prefix_append _ _
  · rintro ⟨tail, rfl⟩
    refine ⟨String.ofList before, String.ofList tail, ?_, ?_⟩
    · apply String.toList_injective
      simp [split]
    · rw [← byteLength_toList, String.toList_ofList]

/-- Two texts stand one behind the other where both together stand. -/
theorem standsAt_append {more : String} : StandsAt line (text ++ more) offset ↔
    StandsAt line text offset ∧ StandsAt line more (offset + text.utf8ByteSize) := by
  constructor
  · rintro ⟨front, tail, rfl, rfl⟩
    refine ⟨⟨front, more ++ tail, ?_, rfl⟩, front ++ text, tail, ?_, String.utf8ByteSize_append⟩
    · simp only [String.append_assoc]
    · simp only [String.append_assoc]
  · rintro ⟨⟨front, tail, rfl, rfl⟩, behind⟩
    have split : (front ++ text ++ tail).toList = (front ++ text).toList ++ tail.toList :=
      String.toList_append
    rw [← String.utf8ByteSize_append, ← byteLength_toList, standsAt_iff split] at behind
    obtain ⟨last, same⟩ := behind
    refine ⟨front, String.ofList last, ?_, rfl⟩
    apply String.toList_injective
    simp [← same]

/-- A text stands at a boundary between characters of the line. -/
theorem StandsAt.isValid (stands : StandsAt line text offset) :
    String.Pos.Raw.IsValid line ⟨offset⟩ := by
  obtain ⟨front, tail, rfl, rfl⟩ := stands
  rw [String.Pos.Raw.isValid_iff_exists_append]
  exact ⟨front, text ++ tail, by rw [String.append_assoc], rfl⟩

/-! ## One word -/

/-- What a text of plain characters and a rest begins with is plain only before the rest. -/
theorem prefix_of_plain {front rest plain : List Char} (each : plain.all isPlain = true)
    (stops : ∀ c ∈ rest.head?, isPlain c = false) (begins : plain <+: front ++ rest) :
    plain <+: front := by
  induction plain generalizing front with
  | nil => exact List.nil_prefix
  | cons c others ih =>
    rw [List.all_cons, Bool.and_eq_true] at each
    cases front with
    | nil =>
      obtain ⟨tail, rfl⟩ := begins
      have special := stops c rfl
      rw [each.1] at special
      cases special
    | cons d further =>
      rw [List.cons_append, List.cons_prefix_cons] at begins
      rw [List.cons_prefix_cons]
      exact ⟨begins.1, ih each.2 begins.2⟩

/-- A blank, a quote and a backslash do not stand for themselves. -/
theorem isPlain_eq_false {c : Char} (special : Text.isBlank c = true ∨ isMark c = true) :
    isPlain c = false := by
  rcases special with blank | marked
  · simp [isPlain, blank]
  · rcases isMark_iff.1 marked with rfl | rfl | rfl <;> decide

/-- Of the rest of the line from a word on, the bare characters of the word are those that stand for
themselves. -/
theorem Word.StandsIn.prefix_iff {letters : List Char} {plain : List Char}
    (stands : word.StandsIn place letters before written after)
    (each : plain.all isPlain = true) :
    plain <+: written ++ after ↔ plain <+: word.chars.take word.bare := by
  obtain ⟨rest, rfl, marked, _⟩ := stands.copied.begins
  have stops : ∀ c ∈ (rest ++ after).head?, isPlain c = false := by
    intro c first
    cases rest with
    | nil => exact isPlain_eq_false (.inl (stands.apart c first))
    | cons d others => exact isPlain_eq_false (.inr (marked c first))
  rw [List.append_assoc]
  exact ⟨prefix_of_plain each stops, fun begins => begins.trans (List.prefix_append _ _)⟩

/-- A word of a line has an accepted trigger exactly if the line begins with it there. -/
theorem beginsWith_iff (stands : word.StandsIn 0 line.toList before written after) :
    BeginsWith accepted line word.offset flag ↔
      word.trigger? = some flag.toList ∧ accepted flag = true := by
  have letters : (flag ++ "=").toList = flag.toList ++ ['='] := by
    rw [String.toList_append]
    rfl
  have offset : word.offset = byteLength before := by rw [stands.offset, Nat.zero_add]
  have place : StandsAt line (flag ++ "=") word.offset ↔
      flag.toList ++ ['='] <+: written ++ after := by
    rw [offset, standsAt_iff stands.parts, letters]
  have plain (each : flag.toList.all isPlain = true) :
      (flag.toList ++ ['=']).all isPlain = true := by
    have sign : isPlain '=' = true := by decide
    rw [List.all_append, each]
    simp [sign]
  rw [trigger?_eq_some_iff]
  constructor
  · intro begins
    have joined := place.1 (standsAt_append.2 ⟨begins.stands, begins.sign⟩)
    have long : 2 ≤ flag.toList.length :=
      two_le_length_of_dash begins.dash (by rw [byteLength_toList]; exact begins.long)
    exact ⟨⟨(stands.prefix_iff (plain begins.plain)).1 joined, begins.free, long, begins.dash⟩,
      begins.known⟩
  · rintro ⟨⟨joined, free, long, dash⟩, known⟩
    have each : (flag.toList ++ ['=']).all isPlain = true := by
      rw [List.all_eq_true]
      exact fun c member => List.all_eq_true.1 stands.copied.plain c (joined.subset member)
    have both := standsAt_append.1 (place.2 ((stands.prefix_iff each).2 joined))
    have bytes : 2 ≤ flag.utf8ByteSize := by
      rw [← byteLength_toList]
      exact Nat.le_trans long (length_le_byteLength flag.toList)
    rw [List.all_append, Bool.and_eq_true] at each
    exact ⟨known, dash, bytes, free, each.1, both.1, both.2⟩

/-- Where no trigger is accepted a word is kept. -/
theorem tokens_never (word : Word) :
    word.tokens (fun _ => false) = [⟨String.ofList word.chars, word.offset⟩] := by
  unfold Word.tokens
  cases word.trigger? <;> rfl

/-- A word of a line is kept or cut. -/
theorem Word.StandsIn.separated (stands : word.StandsIn 0 line.toList before written after) :
    Separated accepted line ⟨String.ofList word.chars, word.offset⟩ (word.tokens accepted) := by
  unfold Word.tokens
  cases trigger : word.trigger? with
  | none =>
    refine .kept fun flag begins => ?_
    have own := ((beginsWith_iff stands).1 begins).1
    rw [trigger] at own
    cases own
  | some letters =>
    by_cases known : accepted (String.ofList letters) = true
    · simp only [known, if_true]
      obtain ⟨rest, same⟩ := (trigger?_eq_some trigger).1.trans (List.take_prefix _ _)
      have size : byteLength letters = (String.ofList letters).utf8ByteSize := by
        rw [← byteLength_toList, String.toList_ofList]
      have value : word.chars.drop (letters.length + 1) = rest := by
        rw [← same, List.drop_append_of_le_length (by simp)]
        simp
      rw [size, value]
      refine .cut ((beginsWith_iff stands).2 ⟨?_, known⟩) ?_
      · rw [trigger, String.toList_ofList]
      · apply String.toList_injective
        simp [← same]
    · simp only [known]
      refine .kept fun flag begins => ?_
      obtain ⟨own, accepts⟩ := (beginsWith_iff stands).1 begins
      rw [trigger, Option.some.injEq] at own
      rw [own, String.ofList_toList] at known
      exact known accepts

/-- A word that is written without quotes and backslashes is what it is written as. -/
theorem Word.StandsIn.text_eq (stands : word.StandsIn 0 line.toList before written after)
    (unquoted : Unquoted line word.offset text) : String.ofList word.chars = text := by
  obtain ⟨front, tail, split, size, apart⟩ := unquoted.stands
  have parts : before ++ (written ++ after) = front.toList ++ (text.toList ++ tail.toList) := by
    rw [← stands.parts, split, String.toList_append, String.toList_append, List.append_assoc]
  have bytes : byteLength before = byteLength front.toList := by
    rw [byteLength_toList, size, stands.offset, Nat.zero_add]
  obtain ⟨_, same⟩ := append_inj_of_byteLength parts bytes
  obtain ⟨rest, shape, marked, whole⟩ := stands.copied.begins
  -- Both the text and the bare characters are all that is plain from the offset on.
  have within : text.toList <+: word.chars.take word.bare :=
    (stands.prefix_iff unquoted.plain).1 (same ▸ List.prefix_append _ _)
  have beyond : word.chars.take word.bare <+: text.toList := by
    refine prefix_of_plain stands.copied.plain
      (fun c first => isPlain_eq_false (.inl (apart c first))) ?_
    rw [← same, shape, List.append_assoc]
    exact List.prefix_append _ _
  have equal : word.chars.take word.bare = text.toList :=
    beyond.eq_of_length (Nat.le_antisymm beyond.length_le within.length_le)
  rw [shape, equal, List.append_assoc, List.append_cancel_left_eq] at same
  cases rest with
  | nil => rw [← whole rfl, equal, String.ofList_toList]
  | cons c others =>
    have blank : Text.isBlank c = true := apart c (by rw [← same]; rfl)
    rw [isBlank_of_isMark (marked c rfl)] at blank
    cases blank

/-- If what a word says stands at its offset, what its parts say stands at theirs. -/
theorem Separated.standsAt {word : Token} {group : List Token}
    (separated : Separated accepted line word group)
    (stands : StandsAt line word.text word.offset) :
    ∀ part ∈ group, StandsAt line part.text part.offset := by
  cases separated with
  | kept _ => simpa using stands
  | @cut flag value begins joined =>
    rw [joined, standsAt_append, String.utf8ByteSize_append, ← Nat.add_assoc] at stands
    simpa using ⟨begins.stands, begins.sign, stands.2⟩

/-- The parts of a word are at boundaries between characters. -/
theorem Separated.isValid {word : Token} {group : List Token}
    (separated : Separated accepted line word group)
    (valid : String.Pos.Raw.IsValid line ⟨word.offset⟩) :
    ∀ part ∈ group, String.Pos.Raw.IsValid line ⟨part.offset⟩ := by
  cases separated with
  | kept _ => simpa using valid
  | @cut flag value begins _ =>
    have behind : StandsAt line ("=" ++ "") (word.offset + flag.utf8ByteSize) := begins.sign
    have last := (standsAt_append.1 behind).2.isValid
    simpa using ⟨valid, begins.sign.isValid, last⟩

/-- A word stands at a boundary between characters. -/
theorem Word.StandsIn.isValid (stands : word.StandsIn 0 line.toList before written after) :
    String.Pos.Raw.IsValid line ⟨word.offset⟩ := by
  have empty : StandsAt line "" (byteLength before) :=
    (standsAt_iff stands.parts).2 List.nil_prefix
  rw [stands.offset, Nat.zero_add]
  exact empty.isValid

/-! ## Order -/

/-- The first token stands before the second one. -/
def Token.Before (first second : Token) : Prop := first.offset < second.offset

/-- The tokens of a word stand in their order, between its offset and the end of what it is written
as. -/
theorem Copied.ordered {chars : List Char} {bare : Nat} (copied : Copied written chars bare)
    (accepted : String → Bool) (place : Nat) :
    ((⟨place, chars, bare⟩ : Word).tokens accepted).Pairwise Token.Before ∧
      ∀ token ∈ (⟨place, chars, bare⟩ : Word).tokens accepted,
        place ≤ token.offset ∧ token.offset ≤ place + byteLength written := by
  unfold Word.tokens
  cases trigger : (⟨place, chars, bare⟩ : Word).trigger? with
  | none => simp
  | some letters =>
    by_cases known : accepted (String.ofList letters) = true
    · obtain ⟨rest, shape, _⟩ := copied.begins
      obtain ⟨⟨tail, same⟩, _, long, _⟩ := trigger?_eq_some trigger
      have some_bytes := length_le_byteLength letters
      have one : '='.utf8Size = 1 := by decide
      have size : byteLength written = byteLength letters + (1 + (byteLength tail +
          byteLength rest)) := by
        rw [shape, ← same]
        simp [byteLength_append, byteLength, one]
      simp only [known, if_true, Token.Before, List.pairwise_cons, List.forall_mem_cons]
      simp only [List.not_mem_nil, false_implies, implies_true, List.Pairwise.nil, and_true]
      omega
    · simp [known]

/-- The tokens of words that are laid out on a text stand in their order, none before the text. -/
theorem Laid.ordered {text : List Char} {found : List Word} (laid : Laid place text found)
    (accepted : String → Bool) :
    (found.flatMap (Word.tokens accepted)).Pairwise Token.Before ∧
      ∀ token ∈ found.flatMap (Word.tokens accepted), place ≤ token.offset := by
  induction laid with
  | nil place => simp
  | blank _ _ ih => exact ⟨ih.1, fun token member => by have := ih.2 token member; omega⟩
  | @last place bare written chars copied =>
    obtain ⟨ordered, within⟩ := copied.ordered accepted place
    rw [List.flatMap_singleton]
    exact ⟨ordered, fun token member => (within token member).1⟩
  | @word place bare written chars rest c found copied _ _ ih =>
    obtain ⟨ordered, within⟩ := copied.ordered accepted place
    have positive := c.utf8Size_pos
    have size : byteLength (written ++ [c]) = byteLength written + c.utf8Size := by
      simp [byteLength_append, byteLength]
    rw [List.flatMap_cons, List.pairwise_append]
    refine ⟨⟨ordered, ih.1, fun first own second later => ?_⟩, fun token member => ?_⟩
    · have ends := (within first own).2
      have starts := ih.2 second later
      unfold Token.Before
      omega
    · rcases List.mem_append.1 member with own | later
      · exact (within token own).1
      · have starts := ih.2 token later
        omega

/-! ## A line -/

/-- Whatever triggers are accepted, a line can be read exactly if it can be read with none, and then
every word is kept or is cut where it begins with an accepted trigger and the sign. The tokens stand
in their order at boundaries between characters of the line; and what the tokens of a word say that
is written without quotes and backslashes stands at their offsets. -/
theorem separators_refine_words (accepted : String → Bool) (line : String) :
    ((∃ tokens, tokenizeWith accepted line = .ok tokens) ↔
        ∃ whole, tokenizeWith (fun _ => false) line = .ok whole) ∧
      ∀ tokens whole, tokenizeWith accepted line = .ok tokens →
        tokenizeWith (fun _ => false) line = .ok whole →
        (∃ groups, tokens = groups.flatten ∧
          List.Forall₂ (fun word group => Separated accepted line word group ∧
            ∀ written, Unquoted line word.offset written → word.text = written ∧
              ∀ part ∈ group, StandsAt line part.text part.offset) whole groups) ∧
        tokens.Pairwise Token.Before ∧
        ∀ token ∈ tokens, String.Pos.Raw.IsValid line ⟨token.offset⟩ := by
  unfold tokenizeWith
  cases read : words line.toList with
  | error fault => simp [Except.map]
  | ok found =>
    refine ⟨⟨fun _ => ⟨_, rfl⟩, fun _ => ⟨_, rfl⟩⟩, ?_⟩
    have laid := laid_of_words 0 read
    have unmoved : Word.moved 0 = id := funext fun word => by simp [Word.moved]
    rw [unmoved, List.map_id] at laid
    have kept : found.flatMap (Word.tokens fun _ => false) =
        found.map fun word => ⟨String.ofList word.chars, word.offset⟩ := by
      rw [List.flatMap_congr fun word _ => tokens_never word]
      exact List.flatMap_pure_eq_map _ _
    simp only [Except.map, Except.ok.injEq]
    rintro _ _ rfl rfl
    refine ⟨⟨found.map (Word.tokens accepted), List.flatMap_def, ?_⟩,
      (laid.ordered accepted).1, ?_⟩
    · rw [kept, List.forall₂_map_left_iff, List.forall₂_map_right_iff]
      refine List.forall₂_same.2 fun word member => ?_
      obtain ⟨before, written, after, stands⟩ := laid.exists_standsIn member
      refine ⟨stands.separated, fun text unquoted => ?_⟩
      have same := stands.text_eq unquoted
      obtain ⟨front, tail, split, size, _⟩ := unquoted.stands
      exact ⟨same, stands.separated.standsAt ⟨front, tail, same ▸ split, size⟩⟩
    · intro token member
      obtain ⟨word, own, inside⟩ := List.mem_flatMap.1 member
      obtain ⟨before, written, after, stands⟩ := laid.exists_standsIn own
      exact stands.separated.isValid stands.isValid token inside

/-- Behind a quoted value and a word of more bytes than characters the offsets are those of the
line. -/
example : tokenizeWith ["--name"].contains "run --name='A b' ü -a=b --name=" =
    .ok [⟨"run", 0⟩, ⟨"--name", 4⟩, ⟨"=", 10⟩, ⟨"A b", 11⟩, ⟨"ü", 17⟩, ⟨"-a=b", 20⟩,
      ⟨"--name", 25⟩, ⟨"=", 31⟩, ⟨"", 32⟩] := by
  decide +kernel

end CommandGrammar.Line
