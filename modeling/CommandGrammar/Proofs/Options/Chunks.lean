import Mathlib

/-!
# Tokens of options

An option with a value is two tokens or, with an equals sign between, three. A value may be
an equals sign or look like a trigger, so the beginning of a line can be cut in two ways.
All of it cannot: a cut that has gone wrong takes every value for a trigger and every
trigger for a value from there on, and is left with a trigger without value at the end.
-/

namespace CommandGrammar

/-- An option with its value. -/
structure Chunk where
  /-- The trigger. -/
  trigger : String
  /-- There is an equals sign between the trigger and the value. -/
  sign : Bool
  /-- The text of the value. -/
  text : String
deriving DecidableEq

namespace Chunk

/-- What stands after the trigger. -/
def rest (chunk : Chunk) : List String :=
  if chunk.sign then ["=", chunk.text] else [chunk.text]

/-- The tokens of an option. -/
def tokens (chunk : Chunk) : List String := chunk.trigger :: chunk.rest

/-- No trigger is an equals sign. -/
def AreProper (chunks : List Chunk) : Prop := ∀ chunk ∈ chunks, chunk.trigger ≠ "="

variable {chunks others : List Chunk}

/-- Tokens that begin with an equals sign are not those of options. -/
theorem sign_ne_tokens (proper : AreProper others) (tokens : List String) :
    "=" :: tokens ≠ others.flatMap Chunk.tokens := by
  cases others with
  | nil => simp
  | cons other later =>
    intro same
    rw [List.flatMap_cons, Chunk.tokens, List.cons_append] at same
    exact proper other List.mem_cons_self (List.cons.inj same).1.symm

/-- A value and the tokens of options after it are not the tokens of options. -/
theorem value_ne_tokens (proper : AreProper chunks) (properOthers : AreProper others)
    (value : String) : value :: chunks.flatMap Chunk.tokens ≠ others.flatMap Chunk.tokens := by
  induction chunks generalizing others value with
  | nil =>
    intro same
    cases others with
    | nil => cases same
    | cons other later =>
      have lengths := congrArg List.length same
      unfold Chunk.tokens Chunk.rest at lengths
      by_cases sign : other.sign = true <;> simp [sign] at lengths
  | cons chunk next ih =>
    intro same
    have first : chunk.trigger ≠ "=" := proper chunk List.mem_cons_self
    have properNext : AreProper next := fun other member =>
      proper other (List.mem_cons_of_mem _ member)
    cases others with
    | nil => cases same
    | cons other later =>
      have properLater : AreProper later := fun chunk member =>
        properOthers chunk (List.mem_cons_of_mem _ member)
      simp only [List.flatMap_cons, Chunk.tokens, Chunk.rest, List.cons_append, List.cons.injEq]
        at same
      obtain ⟨_, same⟩ := same
      -- The misread option takes the next trigger for its value, so it has no sign.
      by_cases sign : other.sign = true
      · rw [if_pos sign] at same
        exact first (List.cons.inj same).1
      · rw [if_neg sign, List.singleton_append, List.cons.injEq] at same
        obtain ⟨_, same⟩ := same
        by_cases signed : chunk.sign = true
        · rw [if_pos signed] at same
          exact sign_ne_tokens properLater _ same
        · rw [if_neg signed] at same
          exact ih properNext properLater _ same

/-- The tokens of options can be cut in one way only. -/
theorem tokens_injective (proper : AreProper chunks) (properOthers : AreProper others)
    (same : chunks.flatMap Chunk.tokens = others.flatMap Chunk.tokens) : chunks = others := by
  induction chunks generalizing others with
  | nil =>
    cases others with
    | nil => rfl
    | cons other later => cases same
  | cons chunk next ih =>
    cases others with
    | nil => cases same
    | cons other later =>
      have properNext : AreProper next := fun other member =>
        proper other (List.mem_cons_of_mem _ member)
      have properLater : AreProper later := fun chunk member =>
        properOthers chunk (List.mem_cons_of_mem _ member)
      obtain ⟨trigger, sign, text⟩ := chunk
      obtain ⟨otherTrigger, otherSign, otherText⟩ := other
      simp only [List.flatMap_cons, Chunk.tokens, Chunk.rest, List.cons_append, List.cons.injEq]
        at same
      obtain ⟨rfl, same⟩ := same
      cases sign <;> cases otherSign <;>
        simp only [Bool.false_eq_true, if_true, if_false, List.cons_append, List.nil_append,
          List.cons.injEq, true_and] at same
      · obtain ⟨rfl, same⟩ := same
        rw [ih properNext properLater same]
      · exact absurd same.2.symm (value_ne_tokens properLater properNext _)
      · exact absurd same.2 (value_ne_tokens properNext properLater _)
      · obtain ⟨rfl, same⟩ := same
        rw [ih properNext properLater same]

end Chunk

end CommandGrammar
