import MiniLisp.Proofs.Independence
import MiniLisp.Proofs.Names

/-!
# Frames: what an evaluation leaves alone

How much of an environment an evaluation can change, and how much of it can make a difference to the
evaluation, is written in the expression. This file fixes both frames exactly:

* `Node.EvaluatedIn`: the places of an expression that are evaluated: itself, the expression of a definition in
  shape, the operands of a call. `Node.Defines`: at one of them stands a definition of the name. Those are
  the names that the evaluation is foretold to bind (`Node.defined_mem_skeleton_iff`);
* `Environment.size_le_size_replay`: logs never make an environment smaller;
* **`evaluation_writes_definitions`**: nothing becomes unbound, nothing but what is defined at such a place is
  bound otherwise, and where all goes well, all of that is bound (`contains_of_defines`);
* `Node.mem_mentions_iff`: the names that a node mentions, told from where they stand; the word for definitions
  is none of them if it stands at heads only (`Node.defineWord_notMem_mentions_iff`);
* `evaluate_beside`: what is bound to any other name passes by the evaluation;
* **`evaluation_reads_mentions`**: environments that agree on what a node mentions make the same of it.
-/

namespace MiniLisp

variable {ω : Type}

/-! ## 1. Places that are evaluated -/

namespace Node

/-- The node `m` stands at a place of `n` that an evaluation of `n` comes to. Heads are none, and neither is
    the name that is defined or anything in a definition out of shape. -/
inductive EvaluatedIn (m : Node ω) : Node ω → Prop
  | self : EvaluatedIn m m
  | definition {expression : Node ω} (t u s : Span) (name : String) (inside : EvaluatedIn m expression) :
    EvaluatedIn m (.list [.symbol defineWord t, .symbol name u, expression] s)
  | operand {head n : Node ω} {operands : List (Node ω)} (s : Span) (hcall : head.isDefine = false)
    (mem : n ∈ operands) (inside : EvaluatedIn m n) : EvaluatedIn m (.list (head :: operands) s)

/-- At such a place stands a definition of the name. -/
def Defines (n : Node ω) (name : String) : Prop :=
  ∃ t u s expression, (list [symbol defineWord t, symbol name u, expression] s).EvaluatedIn n

theorem not_defines_of_ne {n : Node ω} (h : ∀ head operands s, n ≠ list (head :: operands) s)
    (name : String) : ¬ n.Defines name := by
  rintro ⟨t, u, s, expression, hinside⟩
  cases hinside <;> exact h _ _ _ rfl

theorem defines_define {t u s : Span} {name other : String} {expression : Node ω} :
    (list [symbol defineWord t, symbol name u, expression] s).Defines other ↔
      expression.Defines other ∨ other = name := by
  constructor
  · rintro ⟨t', u', s', inner, hinside⟩
    cases hinside with
    | self => exact .inr rfl
    | definition _ _ _ _ hinside => exact .inl ⟨t', u', s', inner, hinside⟩
    | operand _ hcall => exact absurd rfl (isDefine_symbol_eq_false.mp hcall)
  · rintro (⟨t', u', s', inner, hinside⟩ | rfl)
    · exact ⟨t', u', s', inner, .definition t u s name hinside⟩
    · exact ⟨t, u, s, expression, .self⟩

theorem defines_call {head : Node ω} (hcall : head.isDefine = false) {operands : List (Node ω)} {s : Span}
    {name : String} :
    (list (head :: operands) s).Defines name ↔ ∃ n ∈ operands, n.Defines name := by
  constructor
  · rintro ⟨t, u, s', expression, hinside⟩
    cases hinside with
    | self => exact absurd rfl (isDefine_symbol_eq_false.mp hcall)
    | definition => exact absurd rfl (isDefine_symbol_eq_false.mp hcall)
    | operand _ _ hn hinside => exact ⟨_, hn, t, u, s', expression, hinside⟩
  · rintro ⟨n, hn, t, u, s', expression, hinside⟩
    exact ⟨t, u, s', expression, .operand s hcall hn hinside⟩

/-- A list with the word for definitions at its head that is no definition in shape defines nothing. -/
theorem not_defines_of_shape {t s : Span} {operands : List (Node ω)}
    (hshape : ∀ name u expression, operands ≠ [symbol name u, expression]) (name : String) :
    ¬ (list (symbol defineWord t :: operands) s).Defines name := by
  rintro ⟨t', u, s', expression, hinside⟩
  cases hinside with
  | self => exact hshape _ _ _ rfl
  | definition => exact hshape _ _ _ rfl
  | operand _ hcall => exact absurd rfl (isDefine_symbol_eq_false.mp hcall)

/-- **What is foretold to be bound is what is defined** at a place that is evaluated. -/
theorem defined_mem_skeleton_iff {n : Node ω} {name : String} :
    .defined name ∈ n.skeleton ↔ n.Defines name := by
  induction n using formInduction with
  | symbol other s => exact iff_of_false (by simp [skeleton]) (not_defines_of_ne (fun _ _ _ h => by cases h) name)
  | number x s => exact iff_of_false (by simp [skeleton]) (not_defines_of_ne (fun _ _ _ h => by cases h) name)
  | procedure p s => exact iff_of_false (by simp [skeleton]) (not_defines_of_ne (fun _ _ _ h => by cases h) name)
  | empty s => exact iff_of_false (by simp [skeleton]) (not_defines_of_ne (fun _ _ _ h => by cases h) name)
  | count t operands s hlen =>
    rw [skeleton_define_count t s hlen]
    refine iff_of_false List.not_mem_nil (not_defines_of_shape ?_ name)
    rintro other u expression rfl
    exact hlen rfl
  | target t place expression s hplace =>
    rw [skeleton_define_target t s hplace]
    refine iff_of_false List.not_mem_nil (not_defines_of_shape ?_ name)
    intro other u inner heq
    obtain ⟨rfl, _⟩ := List.cons.inj heq
    exact hplace rfl
  | define t other u expression s ih =>
    rw [skeleton_define, List.mem_append, ih, defines_define, List.mem_singleton, Entry.defined.injEq]
  | call head operands s hcall ih =>
    rw [skeleton_call hcall, List.mem_append, List.mem_flatMap, defines_call hcall]
    simp only [List.mem_singleton, reduceCtorEq, or_false]
    exact exists_congr fun n => and_congr_right fun hn => ih n hn

instance (n : Node ω) (name : String) : Decidable (n.Defines name) :=
  decidable_of_iff _ defined_mem_skeleton_iff

/-- A definition at the head of a call is never evaluated. -/
example :
    let definition (name : String) : Node Empty :=
      list [symbol defineWord Span.nowhere, symbol name Span.nowhere, symbol "pi" Span.nowhere] Span.nowhere
    let n : Node Empty := list [list [definition "x"] Span.nowhere, definition "y"] Span.nowhere
    n.Defines "y" ∧ ¬ n.Defines "x" := by decide

end Node

/-! ## 2. What is written -/

namespace Environment

theorem size_le_size_define (env : Environment ω) (name : String) (value : Node ω) :
    env.size ≤ (env.define name value).size :=
  Std.ExtTreeMap.size_le_size_insert

/-- Logs never make an environment smaller. -/
theorem size_le_size_replay (env : Environment ω) (log : List (Event ω)) :
    env.size ≤ (env.replay log).size := by
  induction log generalizing env with
  | nil => exact Nat.le_refl _
  | cons event log ih =>
    refine Nat.le_trans ?_ (ih _)
    cases event with
    | tokenized count => exact Nat.le_refl _
    | called procedure arguments => exact Nat.le_refl _
    | defined name value => exact env.size_le_size_define name value

end Environment

section Writing

variable [Operation ω]

/-- **What no definition that is evaluated gives a value is bound as before.** -/
theorem get?_evaluate_of_not_defines (env : Environment ω) {n : Node ω} {name : String}
    (h : ¬ n.Defines name) : (evaluate env n).env.get? name = env.get? name :=
  get?_evaluate_of_notMem_skeleton env (mt Node.defined_mem_skeleton_iff.mp h)

/-- Where an evaluation comes to a value, all that is defined at a place that is evaluated is bound. -/
theorem contains_of_defines {env : Environment ω} {n value : Node ω}
    (hvalue : (evaluate env n).outcome = .ok value) {name : String} (h : n.Defines name) :
    (evaluate env n).env.contains name = true := by
  have henv : (evaluate env n).env = env.replay (evaluate env n).log := replays_law.evaluate env n
  have hentry := Node.defined_mem_skeleton_iff.mpr h
  rw [← (follows_law.evaluate env n).complete value hvalue] at hentry
  obtain ⟨event, hevent, heq⟩ := List.mem_map.mp hentry
  rw [Environment.contains_eq_isSome_get?, henv]
  rcases env.get?_replay (evaluate env n).log name with ⟨_, bound, _, _, _, hget⟩ | ⟨hnone, _⟩
  · rw [hget]
    rfl
  · cases event with
    | tokenized count => cases heq
    | called procedure arguments => cases heq
    | defined other bound =>
      cases heq
      exact absurd hevent (hnone bound)

/-- **What an evaluation writes.** Whether it fails or not, all that was bound is bound, so the environment has
    as many names at least; a name that is bound otherwise than before has a definition at a place that is
    evaluated; and without such a definition the environment is what it was. If it does not fail, all that has
    such a definition is bound. -/
theorem evaluation_writes_definitions (env : Environment ω) (n : Node ω) :
    (∀ name, env.contains name = true → (evaluate env n).env.contains name = true) ∧
      env.size ≤ (evaluate env n).env.size ∧
      (∀ name, (evaluate env n).env.get? name ≠ env.get? name → n.Defines name) ∧
      ((∀ name, ¬ n.Defines name) → (evaluate env n).env = env) ∧
      ∀ value, (evaluate env n).outcome = .ok value →
        ∀ name, n.Defines name → (evaluate env n).env.contains name = true := by
  have henv : (evaluate env n).env = env.replay (evaluate env n).log := replays_law.evaluate env n
  refine ⟨fun name hname => ?bound, ?size, fun name hne => ?written, fun hnone => ?untouched,
    fun value hvalue name hdefines => contains_of_defines hvalue hdefines⟩
  case bound =>
    rw [Environment.contains_eq_isSome_get?] at hname ⊢
    rw [henv]
    exact Environment.isSome_get?_replay hname _
  case size =>
    rw [henv]
    exact env.size_le_size_replay _
  case written =>
    exact Classical.byContradiction fun hnot => hne (get?_evaluate_of_not_defines env hnot)
  case untouched =>
    exact Environment.ext_get? fun name => get?_evaluate_of_not_defines env (hnone name)

end Writing

/-- The first call fails behind a definition, which is all that it writes. The head of the second one is a
    definition, too, but none that is evaluated. -/
theorem evaluation_writes_definitions_of_failing :
    let env : Environment Empty := .standard
    let pi : Node Empty := .number Environment.pi Span.nowhere
    let definition : Node Empty :=
      .list [.symbol "define" ⟨4, 10⟩, .symbol "r" ⟨11, 12⟩, .symbol "pi" ⟨13, 15⟩] ⟨3, 16⟩
    let failing : Node Empty := .list [.symbol "*" ⟨1, 2⟩, definition, .symbol "s" ⟨17, 18⟩] ⟨0, 19⟩
    let headed : Node Empty := .list [definition, .symbol "pi" ⟨17, 19⟩] ⟨0, 20⟩
    evaluate env failing = ⟨.error (.unbound "s" ⟨17, 18⟩), env.define "r" pi, [.defined "r" pi]⟩ ∧
      (env.contains "pi" = true ∧ (evaluate env failing).env.contains "pi" = true) ∧
      ((evaluate env failing).env.get? "r" ≠ env.get? "r" ∧ failing.Defines "r") ∧
      ((∀ name, ¬ headed.Defines name) ∧ (evaluate env headed).env = env) ∧
      (evaluate env definition).outcome = .ok pi ∧ definition.Defines "r" ∧
      (evaluate env definition).env.contains "r" = true := by
  intro env pi definition failing headed
  have hdefinition : evaluate env definition = ⟨.ok pi, env.define "r" pi, [.defined "r" pi]⟩ :=
    evaluate_define_of_ok rfl (evaluate_of_bound Environment.get?_standard_pi _) "r" _ _
  have hunbound : (env.define "r" pi).get? "s" = none := by
    rw [Environment.get?_define_of_ne (by decide)]
    exact Environment.get?_standard_of_notMem (by decide)
  have hfailing : evaluate env failing =
      ⟨.error (.unbound "s" ⟨17, 18⟩), env.define "r" pi, [.defined "r" pi]⟩ :=
    evaluate_call_of_error rfl (Environment.resolve_of_bound Environment.get?_standard_multiply _)
      (evaluateAll_cons_of_rest_error hdefinition
        (evaluateAll_cons_of_error (evaluate_of_unbound hunbound _))) _
  have hwritten : (evaluate env failing).env.get? "r" ≠ env.get? "r" := by
    rw [hfailing, Environment.get?_define_self, Environment.get?_standard_of_notMem (by decide)]
    exact Option.some_ne_none pi
  have hpi : env.contains "pi" = true := by
    rw [Environment.contains_eq_isSome_get?, Environment.get?_standard_pi]
    rfl
  have hheaded : ∀ name, ¬ headed.Defines name := by
    intro name
    rw [← Node.defined_mem_skeleton_iff]
    show Entry.defined name ∉ [Entry.called 1]
    simp
  obtain ⟨hbound, _, hdefines, _, _⟩ := evaluation_writes_definitions env failing
  obtain ⟨_, _, _, huntouched, _⟩ := evaluation_writes_definitions env headed
  obtain ⟨_, _, _, _, hvalue⟩ := evaluation_writes_definitions env definition
  have houtcome : (evaluate env definition).outcome = .ok pi := congrArg Run.outcome hdefinition
  have hdefined : definition.Defines "r" := by decide
  exact ⟨hfailing, ⟨hpi, hbound "pi" hpi⟩, ⟨hwritten, hdefines "r" hwritten⟩, ⟨hheaded, huntouched hheaded⟩,
    houtcome, hdefined, hvalue pi houtcome "r" hdefined⟩

/-! ## 3. What is read -/

namespace Node

/-- No list is inside of a symbol. -/
theorem not_inside_symbol {items : List (Node ω)} {span s : Span} {name : String} :
    ¬ (list items span).Inside (symbol name s) := nofun

/-- **A name is mentioned where it stands as a symbol**: it is the node, an operand of a list in the node, or
    the head of one; at a head the word for definitions does not count. -/
theorem mem_mentions_iff {n : Node ω} {name : String} :
    name ∈ n.mentions ↔ (∃ s, n = symbol name s) ∨
      ∃ head operands span s, (list (head :: operands) span).Inside n ∧
        (symbol name s ∈ operands ∨ head = symbol name s ∧ name ≠ defineWord) := by
  constructor
  · intro h
    induction n with
    | symbol other s =>
      rw [mentions_symbol, List.mem_singleton] at h
      exact .inl ⟨s, by rw [h]⟩
    | number x s => simp [mentions] at h
    | procedure p s => simp [mentions] at h
    | list items s ih =>
      cases items with
      | nil => simp [mentions] at h
      | cons head operands =>
        rw [mentions_list, List.mem_append, List.mem_flatMap] at h
        rcases h with h | ⟨n, hn, h⟩
        · cases hdef : head.isDefine with
          | true => simp [hdef] at h
          | false =>
            rw [hdef] at h
            rcases ih head List.mem_cons_self h with ⟨t, rfl⟩ | ⟨_, _, _, _, hinside, hplace⟩
            · exact .inr ⟨_, operands, s, t, .self, .inr ⟨rfl, isDefine_symbol_eq_false.mp hdef⟩⟩
            · exact .inr ⟨_, _, _, _, .item s List.mem_cons_self hinside, hplace⟩
        · rcases ih n (List.mem_cons_of_mem head hn) h with ⟨t, rfl⟩ | ⟨_, _, _, _, hinside, hplace⟩
          · exact .inr ⟨head, operands, s, t, .self, .inl hn⟩
          · exact .inr ⟨_, _, _, _, .item s (List.mem_cons_of_mem head hn) hinside, hplace⟩
  · rintro (⟨s, rfl⟩ | ⟨head, operands, span, s, hinside, hplace⟩)
    · simp
    induction hinside with
    | self =>
      rcases hplace with hoperand | ⟨rfl, hne⟩
      · refine mentions_operands_subset head operands span ?_
        exact List.mem_flatMap.mpr ⟨_, hoperand, by simp⟩
      · exact mentions_head_subset (isDefine_symbol_eq_false.mpr hne) operands span (by simp)
    | @item items n t hmem hinside ih =>
      cases items with
      | nil => cases hmem
      | cons first rest =>
        rcases List.mem_cons.mp hmem with rfl | hmem
        · have hcall : n.isDefine = false := by
            refine Bool.eq_false_iff.mpr fun hdef => ?_
            obtain ⟨u, rfl⟩ := isDefine_iff.mp hdef
            exact not_inside_symbol hinside
          exact mentions_head_subset hcall rest t ih
        · exact mentions_operands_subset first rest t (List.mem_flatMap.mpr ⟨n, hmem, ih⟩)

/-- The word for definitions stands in the node at heads of lists only. -/
def DefineAtHeads (n : Node ω) : Prop :=
  (∀ s, n ≠ symbol defineWord s) ∧
    ∀ head operands span, (list (head :: operands) span).Inside n → ∀ s, symbol defineWord s ∉ operands

theorem defineWord_notMem_mentions_iff {n : Node ω} : defineWord ∉ n.mentions ↔ n.DefineAtHeads := by
  rw [mem_mentions_iff, not_or]
  refine and_congr not_exists ?_
  constructor
  · intro h head operands span hinside s hmem
    exact h ⟨head, operands, span, s, hinside, .inl hmem⟩
  · rintro h ⟨head, operands, span, s, hinside, hmem | ⟨_, hne⟩⟩
    · exact h head operands span hinside s hmem
    · exact hne rfl

end Node

section Reading

variable [Operation ω]

/-- **What is bound to a name that a node does not mention passes by its evaluation**: it makes no difference,
    and it is there afterwards. -/
theorem evaluate_beside (env : Environment ω) {n : Node ω} {name : String} (h : name ∉ n.mentions)
    (value : Node ω) :
    evaluate (env.define name value) n =
      ⟨(evaluate env n).outcome, (evaluate env n).env.define name value, (evaluate env n).log⟩ := by
  have hagrees : (env.define name value).AgreesOn n.mentions env := by
    intro other hother
    have hne : name ≠ other := fun heq => h (heq ▸ hother)
    rw [Environment.get?_define_of_ne hne]
  have hruns := evaluate_agreesOn (List.Subset.refl n.mentions) hagrees
  -- the node gives values to names that it mentions, so to others than this one
  have hapart : ∀ other v w, .defined other v ∈ [Event.defined name value] →
      .defined other w ∉ (evaluate env n).log := by
    intro other v w hv hw
    cases List.mem_singleton.mp hv
    exact h (n.targets_subset_mentions (mem_targets_of_mem_log hw))
  have henv : (evaluate (env.define name value) n).env = (evaluate env n).env.define name value := by
    calc (evaluate (env.define name value) n).env
        = (env.replay [.defined name value]).replay (evaluate env n).log := by
          rw [replays_law.evaluate (env.define name value) n, hruns.log]
          rfl
      _ = (env.replay (evaluate env n).log).replay [.defined name value] := env.replay_comm hapart
      _ = (evaluate env n).env.define name value := by
          rw [← replays_law.evaluate env n]
          rfl
  rw [← hruns.outcome, ← henv, ← hruns.log]

/-- **What an evaluation reads.** Environments that agree on the names that a node mentions make the same of it:
    the same outcome and the same log, and they agree on these names afterwards. So it makes no difference
    what any other name is bound to, or the word for definitions where it stands at heads only. -/
theorem evaluation_reads_mentions (n : Node ω) :
    (∀ a b : Environment ω, a.AgreesOn n.mentions b →
      (evaluate a n).outcome = (evaluate b n).outcome ∧ (evaluate a n).log = (evaluate b n).log ∧
        (evaluate a n).env.AgreesOn n.mentions (evaluate b n).env) ∧
      (∀ (env : Environment ω) (name : String) (value : Node ω), name ∉ n.mentions →
        evaluate (env.define name value) n =
          ⟨(evaluate env n).outcome, (evaluate env n).env.define name value, (evaluate env n).log⟩) ∧
      (n.DefineAtHeads → ∀ (env : Environment ω) (value : Node ω),
        evaluate (env.define defineWord value) n =
          ⟨(evaluate env n).outcome, (evaluate env n).env.define defineWord value,
            (evaluate env n).log⟩) := by
  refine ⟨fun a b h => ?_, fun env name value h => evaluate_beside env h value, fun h env value => ?_⟩
  · have hruns := evaluate_agreesOn (List.Subset.refl n.mentions) h
    exact ⟨hruns.outcome, hruns.log, hruns.env⟩
  · exact evaluate_beside env (Node.defineWord_notMem_mentions_iff.mpr h) value

end Reading

/-- A call that fails behind a definition of its own makes no difference between environments that differ in a
    name it does not mention, and in the word for definitions. -/
theorem evaluation_reads_mentions_of_shadowed :
    let pi : Node Empty := .number Environment.pi Span.nowhere
    let a : Environment Empty := .standard
    let b : Environment Empty := (a.define "t" pi).define defineWord pi
    let n : Node Empty := .list [.symbol "*" ⟨1, 2⟩,
      .list [.symbol "define" ⟨4, 10⟩, .symbol "r" ⟨11, 12⟩, .symbol "pi" ⟨13, 15⟩] ⟨3, 16⟩,
      .symbol "s" ⟨17, 18⟩] ⟨0, 19⟩
    a.AgreesOn n.mentions b ∧
      ((evaluate a n).outcome = (evaluate b n).outcome ∧ (evaluate a n).log = (evaluate b n).log ∧
        (evaluate a n).env.AgreesOn n.mentions (evaluate b n).env) ∧
      "t" ∉ n.mentions ∧ n.DefineAtHeads ∧
      evaluate b n = ⟨(evaluate a n).outcome,
        ((evaluate a n).env.define "t" pi).define defineWord pi, (evaluate a n).log⟩ := by
  intro pi a b n
  obtain ⟨hagree, hbeside, hshadowed⟩ := evaluation_reads_mentions n
  have ht : "t" ∉ n.mentions := by decide
  have hdefine : defineWord ∉ n.mentions := by decide
  have hheads : n.DefineAtHeads := Node.defineWord_notMem_mentions_iff.mp hdefine
  have hab : a.AgreesOn n.mentions b := by
    intro name hname
    have hne : "t" ≠ name := fun heq => ht (heq ▸ hname)
    have hne' : defineWord ≠ name := fun heq => hdefine (heq ▸ hname)
    rw [Environment.get?_define_of_ne hne', Environment.get?_define_of_ne hne]
  refine ⟨hab, hagree a b hab, ht, hheads, ?_⟩
  rw [hshadowed hheads, hbeside a "t" pi ht]

end MiniLisp
