import Mathlib
import CommandGrammar.Proofs.Model.Branches
import CommandGrammar.Proofs.Model.Origins

/-!
# Tokens in the tree

The tree of a parse has the tokens between two places under what is chosen for them. So a branch
that stands in it is what is chosen for its node where its tokens stand, the items of a command
after some of them are chosen within the bounds that are left, and every token has a
part in the branch that it is a leaf of: it begins the branch, or it belongs to an
option as its equals sign or its value.
-/

namespace CommandGrammar

variable {tokens : List String} {start stop : Nat}

/-- Tokens between places begin with the one at the first place. -/
theorem between_cons_iff {text : String} {rest : List String} :
    Between tokens (· = text :: rest) start stop ↔
      tokens[start]? = some text ∧ Between tokens (· = rest) (start + 1) stop := by
  have parts (word : List String) : word = text :: rest ↔
      ∃ first others, word = first ++ others ∧ first = [text] ∧ others = rest := by simp
  rw [between_congr parts, between_append_iff]
  simp only [between_singleton_iff]
  constructor
  · rintro ⟨_, ⟨rfl, found⟩, others⟩
    exact ⟨found, others⟩
  · rintro ⟨found, others⟩
    exact ⟨_, ⟨rfl, found⟩, others⟩

/-- Tokens between places are of a language that has them. -/
theorem Between.of_eq {word : List String} {language : List String → Prop}
    (between : Between tokens (· = word) start stop) (member : language word) :
    Between tokens language start stop := by
  obtain ⟨ordered, inside, rfl⟩ := between
  exact ⟨ordered, inside, member⟩

namespace Model

variable {schema : Command} {model : Model} {mode : RequiredParams} {portion : Portion}
  {trees : List Tree} {id : NodeId} {nodes : List NodeId} {least : Nat} {most : Option Nat}

/-- The tokens under what is chosen between two places are those between them. -/
theorem Chooses.between (chooses : model.Chooses mode tokens portion start stop trees)
    (inside : start ≤ tokens.length) : Between tokens (· = tokensOf trees) start stop := by
  induction chooses with
  | switch found kind known first => exact between_singleton_iff.2 ⟨rfl, first⟩
  | spaced found kind known first second =>
    exact between_cons_iff.2 ⟨first, between_singleton_iff.2 ⟨rfl, second⟩⟩
  | joined found kind known first second third =>
    exact between_cons_iff.2 ⟨first, between_cons_iff.2
      ⟨second, between_singleton_iff.2 ⟨rfl, third⟩⟩⟩
  | positional found kind first => exact between_singleton_iff.2 ⟨rfl, first⟩
  | @command id node start stop trees found command name items ih =>
    have after := (List.getElem?_eq_some_iff.1 name).1
    have words : tokensOf [.branch id (.leaf ⟨.literal, node.name, start⟩ :: trees)] =
        node.name :: tokensOf trees := by simp [tokensOf, leavesOf, Tree.leaves]
    rw [words]
    exact between_cons_iff.2 ⟨name, ih after⟩
  | done nodes most place => exact (between_nil_iff inside).2 rfl
  | @item earlier later id least most start split stop first others more passed own rest longest
      ownIH restIH =>
    have head := ownIH inside
    have tail := restIH head.2.1
    rw [tokensOf_append]
    have both : Between tokens (fun word => ∃ front back, word = front ++ back ∧
        front = tokensOf first ∧ back = tokensOf others) start stop :=
      between_append_iff.2 ⟨split, head, tail⟩
    refine (between_congr fun word => ?_).1 both
    simp

/-- What is chosen for a node is one branch of it. -/
theorem Chooses.exists_branch (chooses : model.Chooses mode tokens (.node id) start stop trees) :
    ∃ children, trees = [.branch id children] := by
  cases chooses with
  | switch | spaced | joined | positional | command => exact ⟨_, rfl⟩

/-- What is chosen for items are branches of the nodes, each of which is chosen for its own. -/
theorem Chooses.of_mem
    (chooses : model.Chooses mode tokens (.items nodes least most) start stop trees) (inside : start ≤ tokens.length) {tree : Tree} (member : tree ∈ trees) :
    ∃ id children first last, tree = .branch id children ∧ first ≤ tokens.length ∧
      model.Chooses mode tokens (.node id) first last [.branch id children] := by
  generalize same : Portion.items nodes least most = portion at chooses
  induction chooses generalizing nodes least most with
  | done => cases member
  | @item earlier later id low high start split stop first others more passed own rest _ _ ih =>
    have after := (own.between inside).2.1
    obtain ⟨children, rfl⟩ := own.exists_branch
    rcases List.mem_cons.1 member with rfl | other
    · exact ⟨id, children, start, split, rfl, inside, own⟩
    · exact ih after other rfl
  | _ => cases same

/-- A branch that stands in one that is chosen is what is chosen for its own node. -/
theorem Chooses.of_standsIn {children : List Tree}
    (chooses : model.Chooses mode tokens (.node id) start stop [.branch id children])
    (inside : start ≤ tokens.length) {tree : Tree}
    (stands : (Tree.branch id children).StandsIn tree) :
    ∀ rule own, tree = .branch rule own → ∃ first last, first ≤ tokens.length ∧
      model.Chooses mode tokens (.node rule) first last [.branch rule own] := by
  induction stands with
  | self =>
    rintro rule own same
    cases same
    exact ⟨start, stop, inside, chooses⟩
  | @child outer others tree _ member ih =>
    rintro rule own rfl
    obtain ⟨first, last, below, chosen⟩ := ih outer others rfl
    cases chosen with
    | switch | spaced | joined | positional => simp at member
    | @command _ node _ _ trees found command name items =>
      rcases List.mem_cons.1 member with leaf | member
      · cases leaf
      have after : first + 1 ≤ tokens.length := (List.getElem?_eq_some_iff.1 name).1
      obtain ⟨_, _, place, final, same, within, own⟩ := items.of_mem after member
      cases same
      exact ⟨place, final, within, own⟩

/-- The items of a command after some of them are chosen within the bounds that are left. -/
theorem Chooses.after {before items : List Tree}
    (chooses : model.Chooses mode tokens (.items nodes least most) start stop (before ++ items))
    (inside : start ≤ tokens.length) :
    ∃ place ≤ tokens.length, model.Chooses mode tokens
      (.items nodes (least - before.length) (most.map (· - before.length))) place stop items := by
  induction before generalizing least most start with
  | nil => exact ⟨start, inside, by simpa using chooses⟩
  | cons tree rest ih =>
    generalize same : tree :: rest ++ items = trees at chooses
    cases chooses with
    | done => cases same
    | @item earlier later id _ _ _ split _ first others more passed own others longest =>
      have below := (own.between inside).2.1
      obtain ⟨children, rfl⟩ := own.exists_branch
      obtain ⟨_, rfl⟩ := List.cons.inj same
      obtain ⟨place, within, chosen⟩ := ih others below
      refine ⟨place, within, ?_⟩
      rw [Nat.sub_sub, Nat.add_comm, Option.map_map] at chosen
      have left (bound : Nat) : bound - 1 - rest.length = bound - (rest.length + 1) := by omega
      simpa only [Function.comp_def, left, List.length_cons] using chosen

/-- The first item is chosen for one of the nodes and takes as long a span as any that one of them
derives and that leaves a rest that divides into further items. -/
theorem Chooses.first {item : Tree} {others : List Tree}
    (chooses : model.Chooses mode tokens (.items nodes least most) start stop (item :: others)) :
    ∃ id ∈ nodes, ∃ split, model.Chooses mode tokens (.node id) start split [item] ∧
      model.Chooses mode tokens (.items nodes (least - 1) (most.map (· - 1))) split stop others ∧
      ∀ further other, other ∈ nodes →
        Between tokens ((model.readGrammar mode).Derives (.rule other)) start further →
        Between tokens ((model.readGrammar mode).Divides nodes (least - 1) (most.map (· - 1)))
          further stop → further ≤ split := by
  generalize same : item :: others = trees at chooses
  cases chooses with
  | done => cases same
  | @item earlier later id _ _ _ split _ own rest more passed chosen remaining longest =>
    obtain ⟨children, rfl⟩ := chosen.exists_branch
    obtain ⟨rfl, rfl⟩ := List.cons.inj same
    refine ⟨id, by simp, split, chosen, remaining, fun further other listed derives divides => ?_⟩
    by_contra above
    exact longest further (Nat.not_le.1 above) ⟨⟨other, listed, derives⟩, divides⟩

/-- The tokens of what is chosen for items divide into items. -/
theorem Chooses.divides (made : ofSchema schema = .ok model)
    (chooses : model.Chooses mode tokens (.items nodes least most) start stop trees)
    (inside : start ≤ tokens.length) :
    Between tokens ((model.readGrammar mode).Divides nodes least most) start stop :=
  (between_congr fun _ => Grammar.divides_iff_derives).2 ((chooses.picks made inside).spans inside)

/-- The first leaf under what is chosen for a node is the token at the first place. -/
theorem Chooses.begins (chooses : model.Chooses mode tokens (.node id) start stop trees) :
    ∃ leaf others, leavesOf trees = leaf :: others ∧ leaf.index = start := by
  cases chooses with
  | switch | spaced | joined | positional | command => exact ⟨_, _, rfl, rfl⟩

/-- Each token between two places is a leaf of a branch in what is chosen between them. -/
theorem Chooses.exists_leaf (chooses : model.Chooses mode tokens portion start stop trees)
    (inside : start ≤ tokens.length) {place : Nat} (above : start ≤ place) (below : place < stop) :
    ∃ tree ∈ trees, ∃ rule own first last, tree.StandsIn (.branch rule own) ∧
      first ≤ tokens.length ∧ model.Chooses mode tokens (.node rule) first last [.branch rule own] ∧
        ∃ leaf, .leaf leaf ∈ own ∧ leaf.index = place := by
  have whole := chooses
  induction chooses with
  | switch | positional =>
    obtain rfl : place = _ := Nat.le_antisymm (Nat.lt_succ_iff.1 below) above
    exact ⟨_, List.mem_cons_self, _, _, _, _, .self, inside, whole, _, .head _, rfl⟩
  | @spaced id node triggers trigger text start =>
    rcases (by omega : place = start ∨ place = start + 1) with rfl | rfl
    · exact ⟨_, List.mem_cons_self, _, _, _, _, .self, inside, whole, _, .head _, rfl⟩
    · exact ⟨_, List.mem_cons_self, _, _, _, _, .self, inside, whole, _, .tail _ (.head _), rfl⟩
  | @joined id node triggers trigger text start =>
    rcases (by omega : place = start ∨ place = start + 1 ∨ place = start + 2) with rfl | rfl | rfl
    · exact ⟨_, List.mem_cons_self, _, _, _, _, .self, inside, whole, _, .head _, rfl⟩
    · exact ⟨_, List.mem_cons_self, _, _, _, _, .self, inside, whole, _, .tail _ (.head _), rfl⟩
    · exact ⟨_, List.mem_cons_self, _, _, _, _, .self, inside, whole, _,
        .tail _ (.tail _ (.head _)), rfl⟩
  | @command id node start stop trees found command name items ih =>
    rcases Nat.eq_or_lt_of_le above with rfl | later
    · exact ⟨_, List.mem_cons_self, _, _, _, _, .self, inside, whole, _, .head _, rfl⟩
    · have after : start + 1 ≤ tokens.length := (List.getElem?_eq_some_iff.1 name).1
      obtain ⟨tree, member, rule, own, first, last, stands, rest⟩ := ih after later below items
      exact ⟨_, List.mem_cons_self, rule, own, first, last,
        stands.trans (.child .self (List.mem_cons_of_mem _ member)), rest⟩
  | done => omega
  | @item earlier later id least most start split stop first others more passed own rest longest
      ownIH restIH =>
    by_cases early : place < split
    · obtain ⟨tree, member, found⟩ := ownIH inside above early own
      exact ⟨tree, List.mem_append_left _ member, found⟩
    · have within := (own.between inside).2.1
      obtain ⟨tree, member, found⟩ := restIH within (Nat.not_lt.1 early) below rest
      exact ⟨tree, List.mem_append_right _ member, found⟩

end Model

end CommandGrammar
