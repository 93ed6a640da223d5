import Mathlib
import CommandGrammar.Proofs.Model.Paths
import CommandGrammar.Proofs.Resolved
import CommandGrammar.Proofs.Schema.Check
import CommandGrammar.Proofs.Value.Merge

/-!
# Invocations with and without defaults

Resolving with the defaults filled in and without them succeed together. The two invocations differ
by the defaults only: one with the defaults has, for each parameter that is absent, its default,
at every depth that is reached by single invocations and inside the lists of collected ones.
-/

namespace CommandGrammar

namespace Model

/-- An invocation with the defaults filled in, and the same one without them. -/
def Twins (model : Model) (command : NodeId) (full bare : Resolved) : Prop :=
  ∃ own, model.resolve .filled ⟨"", command, own⟩ = .ok full ∧
    model.resolve .omitted ⟨"", command, own⟩ = .ok bare

/-- An occurrence with the defaults of its invocations filled in, and the same one without them. -/
inductive SameOccurrence (model : Model) : NodeId × Field → NodeId × Field → Prop where
  /-- A value is the same. -/
  | value (node : NodeId) (value : Value) :
      SameOccurrence model (node, .value value) (node, .value value)
  /-- Invocations are twins. -/
  | command {node : NodeId} {full bare : Resolved} (twins : model.Twins node full bare) :
      SameOccurrence model (node, .command full) (node, .command bare)

/-- The field of a declaration that occurs, with the defaults of its invocations filled in, and the
same one without them. -/
inductive SameField (model : Model) (node : Node) : Field → Field → Prop where
  /-- Values are the same. -/
  | value (value : Value) : SameField model node (.value value) (.value value)
  /-- A single invocation has a twin. -/
  | command {full bare : Resolved} (twins : model.Twins node.id full bare) :
      SameField model node (.command full) (.command bare)
  /-- Collected invocations are twins one by one. -/
  | commands {fulls bares : List Resolved} (command : node.isCommand = true)
      (collects : node.collects = true) (each : List.Forall₂ (model.Twins node.id) fulls bares) :
      SameField model node (.commands fulls) (.commands bares)

variable {schema : Command} {model : Model} {node command : Node} {fulls bares : Occurrences}
  {full bare : Resolved}

/-! ## Occurrences -/

/-- A parameter's occurrence is a value, which has nothing to fill in. -/
theorem same_of_paramField {rule : NodeId} {children : List Tree}
    (occurs : (do return [(rule, ← paramField node children)]) = Except.ok fulls) :
    List.Forall₂ model.SameOccurrence fulls fulls := by
  obtain ⟨field, decodes, done⟩ := bind_eq_ok_iff.1 occurs
  cases done
  rw [paramField] at decodes
  split at decodes
  · cases decodes
    exact .cons (.value rule _) .nil
  · cases decodes

mutual

/-- A branch that stands for an occurrence with the defaults filled in stands for the same one
without them. -/
theorem exists_same_occurrence (model : Model) (tree : Tree) {full : Occurrences}
    (occurs : model.occurrence .filled tree = .ok full) :
    ∃ bare, model.occurrence .omitted tree = .ok bare ∧
      List.Forall₂ model.SameOccurrence full bare := by
  cases tree with
  | leaf leaf =>
    cases occurs
    exact ⟨[], rfl, .nil⟩
  | branch rule children =>
    rw [occurrence] at occurs ⊢
    cases known : model.node? rule with
    | none =>
      rw [known] at occurs
      cases occurs
    | some node =>
      rw [known] at occurs
      simp only at occurs ⊢
      cases kind : node.kind with
      | flag triggers takesValue =>
        cases takesValue with
        | false =>
          simp only [kind, Except.ok.injEq] at occurs ⊢
          exact ⟨_, rfl, occurs ▸ .cons (.value rule _) .nil⟩
        | true =>
          simp only [kind] at occurs ⊢
          exact ⟨full, occurs, same_of_paramField occurs⟩
      | positional =>
        simp only [kind] at occurs ⊢
        exact ⟨full, occurs, same_of_paramField occurs⟩
      | command | group =>
        simp only [kind] at occurs ⊢
        obtain ⟨inner, below, done⟩ := bind_eq_ok_iff.1 occurs
        cases done
        obtain ⟨others, bare_below, _⟩ := exists_same_occurrences model children below
        have twins : model.Twins rule (model.invocation .filled node inner)
            (model.invocation .omitted node others) := by
          refine ⟨children, ?_, ?_⟩
          · rw [resolve, known]
            exact bind_eq_ok_iff.2 ⟨inner, below, rfl⟩
          · rw [resolve, known]
            exact bind_eq_ok_iff.2 ⟨others, bare_below, rfl⟩
        exact ⟨_, bind_eq_ok_iff.2 ⟨others, bare_below, rfl⟩, .cons (.command twins) .nil⟩

/-- Branches that stand for occurrences with the defaults filled in stand for the same ones without
them. -/
theorem exists_same_occurrences (model : Model) (trees : List Tree) {fulls : Occurrences}
    (occurs : model.occurrences .filled trees = .ok fulls) :
    ∃ bares, model.occurrences .omitted trees = .ok bares ∧
      List.Forall₂ model.SameOccurrence fulls bares := by
  cases trees with
  | nil =>
    cases occurs
    exact ⟨[], rfl, .nil⟩
  | cons tree rest =>
    rw [occurrences] at occurs
    obtain ⟨first, head, occurs⟩ := bind_eq_ok_iff.1 occurs
    obtain ⟨others, tail, done⟩ := bind_eq_ok_iff.1 occurs
    cases done
    obtain ⟨bare_first, bare_head, same_first⟩ := exists_same_occurrence model tree head
    obtain ⟨bare_others, bare_tail, same_others⟩ := exists_same_occurrences model rest tail
    refine ⟨bare_first ++ bare_others, ?_, List.rel_append same_first same_others⟩
    rw [occurrences]
    exact bind_eq_ok_iff.2 ⟨_, bare_head, bind_eq_ok_iff.2 ⟨_, bare_tail, rfl⟩⟩

end

/-- A parse that is resolved with the defaults filled in is resolved without them. -/
theorem exists_twin {parse : Parse} (resolves : model.resolve .filled parse = .ok full) :
    ∃ bare, model.resolve .omitted parse = .ok bare ∧ model.Twins parse.rule full bare := by
  obtain ⟨input, rule, children⟩ := parse
  have kept := resolves
  rw [resolve] at resolves
  cases known : model.node? rule with
  | none =>
    rw [known] at resolves
    cases resolves
  | some node =>
    rw [known] at resolves
    obtain ⟨inner, below, _⟩ := bind_eq_ok_iff.1 resolves
    obtain ⟨others, bare_below, _⟩ := exists_same_occurrences model children below
    have bare : model.resolve .omitted ⟨input, rule, children⟩ =
        .ok (model.invocation .omitted node others) := by
      rw [resolve, known]
      exact bind_eq_ok_iff.2 ⟨others, bare_below, rfl⟩
    exact ⟨_, bare, children, kept, bare⟩

/-! ## Fields -/

/-- The same occurrences are of one declaration. -/
theorem SameOccurrence.node_eq {full bare : NodeId × Field}
    (same : model.SameOccurrence full bare) : full.1 = bare.1 := by
  cases same <;> rfl

/-- The occurrences of a declaration are the same. -/
theorem same_of_filter (same : List.Forall₂ model.SameOccurrence fulls bares) (id : NodeId) :
    List.Forall₂ (fun full bare => model.SameOccurrence (id, full) (id, bare))
      ((fulls.filter (·.1 == id)).map Prod.snd) ((bares.filter (·.1 == id)).map Prod.snd) := by
  induction same with
  | nil => exact .nil
  | @cons full bare _ _ head _ ih =>
    have one : full.1 = bare.1 := head.node_eq
    by_cases own : full.1 = id
    · obtain ⟨_, field⟩ := full
      obtain ⟨_, other⟩ := bare
      cases own
      cases one
      rw [List.filter_cons_of_pos (by simp), List.filter_cons_of_pos (by simp)]
      exact .cons head ih
    · have other : bare.1 ≠ id := one ▸ own
      rw [List.filter_cons_of_neg (by simpa using own)]
      rw [List.filter_cons_of_neg (by simpa using other)]
      exact ih

/-- The last items of related lists are related. -/
theorem exists_last_related {α β : Type} {related : α → β → Prop} {firsts : List α}
    {seconds : List β} (each : List.Forall₂ related firsts seconds) {first : α}
    (last : firsts.getLast? = some first) :
    ∃ second, seconds.getLast? = some second ∧ related first second := by
  -- The last items are the first ones of the reversed lists.
  rw [List.getLast?_eq_head?_reverse] at last ⊢
  have reversed : List.Forall₂ related firsts.reverse seconds.reverse := List.rel_reverse each
  generalize firsts.reverse = befores at reversed last
  generalize seconds.reverse = afters at reversed
  cases reversed with
  | nil => cases last
  | cons head _ =>
    cases last
    exact ⟨_, rfl, head⟩

/-- The same occurrences have the same values and twins among them. -/
theorem same_parts {id : NodeId} {fulls bares : List Field} (same : List.Forall₂
      (fun full bare => model.SameOccurrence (id, full) (id, bare)) fulls bares) :
    fulls.filterMap Field.value? = bares.filterMap Field.value? ∧
      List.Forall₂ (model.Twins id) (fulls.filterMap Field.command?)
        (bares.filterMap Field.command?) := by
  induction same with
  | nil => exact ⟨rfl, .nil⟩
  | cons head _ ih =>
    cases head with
    | value => exact ⟨congrArg (_ :: ·) ih.1, ih.2⟩
    | command twins => exact ⟨ih.1, .cons twins ih.2⟩

/-- What is gathered from the same occurrences is the same. -/
theorem same_of_gather {fulls bares : List Field} (same : List.Forall₂
      (fun full bare => model.SameOccurrence (node.id, full) (node.id, bare)) fulls bares) :
    (node.gather? fulls = none ∧ node.gather? bares = none) ∨
      ∃ full bare, node.gather? fulls = some full ∧ node.gather? bares = some bare ∧
        model.SameField node full bare := by
  obtain ⟨values, twins⟩ := same_parts same
  have lengths := same.length_eq
  cases fulls with
  | nil =>
    obtain rfl := List.length_eq_zero_iff.1 lengths.symm
    exact .inl ⟨rfl, rfl⟩
  | cons first rest =>
    have full_some : (first :: rest).isEmpty = false := rfl
    have bare_some : bares.isEmpty = false := by
      cases bares with
      | nil => cases lengths
      | cons => rfl
    right
    rw [Node.gather?, Node.gather?, full_some, bare_some]
    cases collects : node.collects with
    | false =>
      have last := List.getLast?_eq_some_getLast (List.cons_ne_nil first rest)
      obtain ⟨other, bare_last, related⟩ := exists_last_related same last
      refine ⟨_, other, by simpa using last, by simpa using bare_last, ?_⟩
      generalize (first :: rest).getLast _ = full at related
      cases related with
      | value => exact .value _
      | command twins => exact .command twins
    | true =>
      cases param : node.isParam with
      | true =>
        refine ⟨.value (.list ((first :: rest).filterMap Field.value?)),
          .value (.list (bares.filterMap Field.value?)), by simp, by simp, ?_⟩
        rw [values]
        exact .value _
      | false =>
        have command : node.isCommand = true := by simp [Node.isCommand, param]
        exact ⟨.commands ((first :: rest).filterMap Field.command?),
          .commands (bares.filterMap Field.command?), by simp, by simp,
          .commands command collects twins⟩

/-- A declaration with a default is a parameter. -/
theorem isParam_of_default (made : ofSchema schema = .ok model) {id : NodeId}
    (known : model.node? id = some node) {value : Value} (default : node.default = some value) :
    node.isParam = true := by
  by_contra no_param
  have command : node.isCommand = true := by simpa [Node.isCommand] using no_param
  obtain ⟨_, _, _, rfl, _⟩ := command_of_node? made known command
  cases default

/-- The fields of an invocation of a command are in the order of their names. -/
theorem ordered_of_resolve {defaults : Defaults} {parse : Parse}
    (resolves : model.resolve defaults parse = .ok full) : Keyed.Ordered full.fields := by
  rw [resolve] at resolves
  split at resolves
  · cases resolves
  · obtain ⟨_, _, done⟩ := bind_eq_ok_iff.1 resolves
    cases done
    exact ordered_invocation _ _ _ _

/-- A field of an invocation with the defaults filled in is the field of a declaration. Its twin has
the same one, or it has none there and the field is the default of a parameter. -/
theorem Twins.field_cases (made : ofSchema schema = .ok model)
    (known : model.node? command.id = some command) (twins : model.Twins command.id full bare)
    {name : String} {field : Field} (found : full.field? name = some field) :
    ∃ node ∈ model.nodesOf command.declared, node.name = name ∧
      ((∃ other, bare.field? name = some other ∧ model.SameField node field other) ∨
        (bare.field? name = none ∧ ∃ value, node.required = false ∧
          node.default = some value ∧ field = .value value)) := by
  obtain ⟨own, full_resolves, bare_resolves⟩ := twins
  rw [resolve, known] at full_resolves bare_resolves
  obtain ⟨fulls, full_below, done⟩ := bind_eq_ok_iff.1 full_resolves
  cases done
  obtain ⟨bares, bare_below, done⟩ := bind_eq_ok_iff.1 bare_resolves
  cases done
  obtain ⟨others, again, same⟩ := exists_same_occurrences model own full_below
  have equal : others = bares := Except.ok.inj (again.symm.trans bare_below)
  rw [equal] at same
  by_cases declares : ∃ node ∈ model.nodesOf command.declared, node.name = name
  · obtain ⟨node, declared, rfl⟩ := declares
    refine ⟨node, declared, rfl, ?_⟩
    have names := names_nodup made known
    rw [field?_invocation names declared] at found ⊢
    rw [fieldOf?] at found ⊢
    rcases same_of_gather (same_of_filter same node.id) with
      ⟨full_none, bare_none⟩ | ⟨own, other, full_some, bare_some, related⟩
    · right
      rw [full_none, Option.none_or, Node.absent?] at found
      rw [bare_none, Option.none_or, Node.absent?]
      split at found
      · next optional =>
        obtain ⟨value, default, rfl⟩ := Option.map_eq_some_iff.1 found
        exact ⟨if_neg (by simp), value, by simpa using optional.1, default, rfl⟩
      · cases found
    · left
      rw [full_some, Option.some_or] at found
      obtain rfl := Option.some.inj found
      rw [bare_some, Option.some_or]
      exact ⟨other, rfl, related⟩
  · have differs : ∀ node ∈ model.nodesOf command.declared, node.name ≠ name :=
      fun node declared same => declares ⟨node, declared, same⟩
    rw [field?_invocation_of_ne differs] at found
    cases found

end Model

end CommandGrammar
