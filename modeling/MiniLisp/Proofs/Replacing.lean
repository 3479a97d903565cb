import MiniLisp.Proofs.Footprints
import MiniLisp.Proofs.Places
import MiniLisp.Proofs.Values

/-!
# Replacing: an expression and its value

An expression that defines nothing may give way to its value wherever it is evaluated, as long as the names
in it stay bound as they are. This file fixes:

* `Context`: an expression with a place in it that is evaluated, and `Context.fill`, with what stands there.
  The head of a list is no such place, for it is never evaluated;
* `Node.DefineFree`: no list in the node is a definition. Such a node binds nothing
  (`Node.DefineFree.evaluate_env`);
* `Node.IsPlain`, `Environment.Plain`: numbers and procedures, which are their own values. **The built-in
  procedures make nothing else of them** (`keeps_plain`);
* `Run.EndsAlike`: two runs that come to the same and leave the same, but for places, whatever they log.
  Runs that end alike step by step end alike together (`Run.EndsAlike.andThen`), and so do operands
  (`evaluateAll_endsAlike`);
* `Context.evaluate_fill`: **what ends alike may take each other's place**, where the names it depends on
  are not bound anew;
* **`value_replaces_expression`**: so may an expression and its value.
-/

namespace MiniLisp

variable {ω : Type}

/-! ## 1. Contexts -/

/-- An expression with a place in it that is evaluated: the whole, what a definition binds, or an operand
    of a call, with such a place in it again. -/
inductive Context (ω : Type) where
  | hole
  | define (word : Span) (target : Node ω) (inner : Context ω) (span : Span)
  | operand (head : Node ω) (call : head.isDefine = false) (before : List (Node ω)) (inner : Context ω)
      (after : List (Node ω)) (span : Span)

/-- The expression with a node in the place. -/
def Context.fill : Context ω → Node ω → Node ω
  | hole, n => n
  | define word target inner span, n => .list [.symbol defineWord word, target, inner.fill n] span
  | operand head _ before inner after span, n => .list (head :: (before ++ inner.fill n :: after)) span

/-! ## 2. Expressions that define nothing -/

namespace Node

/-- No list in the node, at any depth, is headed by the word for definitions. -/
def DefineFree (n : Node ω) : Prop :=
  ∀ (head : Node ω) (operands : List (Node ω)) (span : Span),
    (list (head :: operands) span).Inside n → head.isDefine = false

theorem DefineFree.item {items : List (Node ω)} {s : Span} (h : (list items s).DefineFree) {n : Node ω}
    (hn : n ∈ items) : n.DefineFree :=
  fun head operands span hinside => h head operands span (.item s hn hinside)

theorem defineFree_symbol (name : String) (s : Span) : (symbol name s : Node ω).DefineFree := by
  intro head operands span h
  cases h

theorem defineFree_call {head : Node ω} (h : head.isDefine = false) {operands : List (Node ω)}
    (hitems : ∀ n ∈ head :: operands, n.DefineFree) (s : Span) :
    (list (head :: operands) s).DefineFree := by
  intro other others span hinside
  cases hinside with
  | self => exact h
  | item _ hn hinside => exact hitems _ hn other others span hinside

theorem DefineFree.targets_eq_nil {n : Node ω} (h : n.DefineFree) : n.targets = [] := by
  induction n with
  | symbol name s => rfl
  | number x s => rfl
  | procedure p s => rfl
  | list items s ih =>
    have hitems : items.flatMap targets = [] :=
      List.flatMap_eq_nil_iff.mpr fun n hn => ih n hn (h.item hn)
    rw [targets_list, hitems, List.append_nil, Option.toList_eq_nil_iff]
    unfold target?
    split
    · rw [if_neg (Bool.eq_false_iff.mp (h _ _ s .self))]
    · rfl

/-- **What defines nothing binds nothing.** -/
theorem DefineFree.evaluate_env [Operation ω] {n : Node ω} (h : n.DefineFree) (env : Environment ω) :
    (evaluate env n).env = env := by
  refine Environment.ext_get? fun name => get?_evaluate_of_notMem env ?_
  rw [h.targets_eq_nil]
  exact List.not_mem_nil

/-! ## 3. Plain values -/

/-- A number or a procedure. -/
def IsPlain (n : Node ω) : Prop := n.kind = .number ∨ n.kind = .procedure

theorem IsPlain.withSpan {n : Node ω} (h : n.IsPlain) (s : Span) : (n.withSpan s).IsPlain := by
  rwa [IsPlain, kind_withSpan]

/-- Such a node is its own value. -/
theorem IsPlain.evaluate_eq [Operation ω] {n : Node ω} (h : n.IsPlain) (env : Environment ω) :
    evaluate env n = .done env n := by
  rcases h with h | h
  · obtain ⟨x, s, rfl⟩ := exists_eq_number h
    exact evaluate_number env x s
  · obtain ⟨p, s, rfl⟩ := exists_eq_procedure h
    exact evaluate_procedure env p s

end Node

/-- Nothing but numbers and procedures is bound. -/
def Environment.Plain (env : Environment ω) : Prop := env.Binds Node.IsPlain

/-- What texts bind is nothing else. -/
theorem Environment.Ordinary.plain {env : Environment ω} (h : env.Ordinary) : env.Plain := by
  intro name value hget
  cases h name value hget with
  | number x s => exact .inl rfl
  | procedure builtin s => exact .inr rfl

/-- The built-in procedures make such values of such values. -/
theorem Procedure.isPlain_of_apply {p : Procedure Empty} {args : List (Node Empty)} {span : Span}
    {value : Node Empty} (h : p.apply args span = .ok value) (hargs : ∀ arg ∈ args, arg.IsPlain) :
    value.IsPlain := by
  have happlies := applies_apply p args span
  generalize p.apply args span = outcome at h happlies
  cases happlies with
  | numbers =>
    cases h
    exact .inl rfl
  | last _ args =>
    cases h
    exact hargs value (List.mem_append_right args List.mem_cons_self)
  | count => cases h
  | left => cases h
  | right => cases h
  | none => cases h
  | host f => exact f.elim

/-- **Evaluations make nothing else of numbers and procedures.** -/
theorem keeps_plain : Node.Keeps (ω := Empty) (fun _ => True) Node.IsPlain where
  item _ _ _ := trivial
  number _ _ := .inl rfl
  procedure _ := .inr rfl
  withSpan := Node.IsPlain.withSpan
  apply _ hargs hvalue := Procedure.isPlain_of_apply hvalue hargs

/-! ## 4. Ending alike -/

namespace Run

variable {α β : Type} {same : α → α → Prop} {same' : β → β → Prop}

/-- The runs come to the same and leave the same, but for places. -/
structure EndsAlike (same : α → α → Prop) (r s : Run ω (EvalError ω) α) : Prop where
  outcome : AlikeOutcomes same r.outcome s.outcome
  env : r.env.Alike s.env

theorem Alike.endsAlike {r s : Run ω (EvalError ω) α} (h : r.Alike same s) : r.EndsAlike same s :=
  ⟨h.outcome, h.env⟩

/-- **Runs that end alike step by step end alike together.** What is behind begins where the first runs
    ended. -/
theorem EndsAlike.andThen {r s : Run ω (EvalError ω) α} (h : r.EndsAlike same s)
    {next other : α → Environment ω → Run ω (EvalError ω) β}
    (hnext : ∀ v w, same v w → (next v r.env).EndsAlike same' (other w s.env)) :
    (r.andThen next).EndsAlike same' (s.andThen other) := by
  obtain ⟨outcome, a, log⟩ := r
  obtain ⟨outcome', b, log'⟩ := s
  obtain ⟨houtcome, henv⟩ := h
  cases houtcome with
  | error hcause => exact ⟨.error hcause, henv⟩
  | @ok v w hvalue =>
    have hrest := hnext v w hvalue
    exact ⟨hrest.outcome, hrest.env⟩

end Run

section Evaluating

variable [Operation ω]

/-- Operands around two that end alike end alike. -/
theorem evaluateAll_endsAlike (hall : ∀ p : Procedure ω, p.IgnoresPlaces) {m n : Node ω}
    (before after : List (Node ω)) {a b : Environment ω} (h : a.Alike b)
    (hmiddle : (evaluate (evaluateAll a before).env m).EndsAlike Node.Alike
      (evaluate (evaluateAll b before).env n)) :
    (evaluateAll a (before ++ m :: after)).EndsAlike Node.AlikeAll
      (evaluateAll b (before ++ n :: after)) := by
  have hbefore := evaluateAll_alike hall (rfl : Node.AlikeAll before before) h
  have hafter := evaluateAll_alike hall (rfl : Node.AlikeAll after after) hmiddle.env
  rw [evaluateAll_append, evaluateAll_append]
  refine hbefore.endsAlike.andThen fun vs ws hvws => ?_
  rw [evaluateAll_cons, evaluateAll_cons, Run.andThen_assoc, Run.andThen_assoc]
  refine hmiddle.andThen fun v w hvw => ?_
  rw [Run.andThen_assoc, Run.andThen_assoc]
  refine hafter.endsAlike.andThen fun more others hmore => ?_
  have hvalues := Node.alikeAll_cons.mpr ⟨hvw.withSpan m.span n.span, hmore⟩
  exact ⟨.ok (hvws.append hvalues), hafter.env⟩

end Evaluating

/-! ## 5. In a context -/

/-- **What ends alike may take each other's place**, where no definition binds a name anew that it depends
    on. The runs before the place and behind it are alike, so the whole ends alike, wherever it ends. -/
theorem Context.evaluate_fill {names : List String} {start : Environment Empty} {m n : Node Empty}
    (hole : ∀ {a b : Environment Empty}, a.AgreesOn names start → a.Alike b →
      (evaluate a m).EndsAlike Node.Alike (evaluate b n))
    (c : Context Empty) (htargets : ∀ name ∈ (c.fill m).targets, name ∉ names)
    {a b : Environment Empty} (hagrees : a.AgreesOn names start) (h : a.Alike b) :
    (evaluate a (c.fill m)).EndsAlike Node.Alike (evaluate b (c.fill n)) := by
  have hall : ∀ p : Procedure Empty, p.IgnoresPlaces := Procedure.ignoresPlaces_of_hosts nofun
  induction c generalizing a b with
  | hole => exact hole hagrees h
  | define word target inner span ih =>
    rw [fill, fill]
    by_cases hkind : target.kind = .symbol
    · obtain ⟨name, place, rfl⟩ := Node.exists_eq_symbol hkind
      have hinner : ∀ other ∈ (inner.fill m).targets, other ∉ names := fun other hother =>
        htargets other (Node.targets_item_subset (by simp) span hother)
      rw [evaluate_define a rfl, evaluate_define b rfl]
      have hends := ih hinner hagrees h
      exact hends.andThen fun v w hvw => ⟨.ok hvw, hends.env.define name hvw⟩
    · rw [evaluate_define_target a rfl hkind, evaluate_define_target b rfl hkind]
      exact (Run.alike_fail h rfl).endsAlike
  | operand head call before inner after span ih =>
    rw [fill, fill, evaluate_call a call, evaluate_call b call]
    have hresolve := h.resolve (rfl : head.Alike head)
    generalize a.resolve head = found at hresolve ⊢
    generalize b.resolve head = found' at hresolve ⊢
    cases hresolve with
    | error hcause => exact (Run.alike_fail h hcause).endsAlike
    | @ok p q hpq =>
      subst hpq
      have hinner : ∀ other ∈ (inner.fill m).targets, other ∉ names := fun other hother =>
        htargets other (Node.targets_item_subset (by simp) span hother)
      -- the operands in front of the place bind none of the names either
      have hmiddle : (evaluateAll a before).env.AgreesOn names start := by
        intro name hname
        refine (get?_evaluateAll_of_notMem a fun hmem => ?_).trans (hagrees name hname)
        obtain ⟨operand, hoperand, hmem⟩ := List.mem_flatMap.mp hmem
        exact htargets name (Node.targets_item_subset (by simp [hoperand]) span hmem) hname
      have hbefore := evaluateAll_alike hall (rfl : Node.AlikeAll before before) h
      have hoperands := evaluateAll_endsAlike hall before after h (ih hinner hmiddle hbefore.env)
      exact hoperands.andThen fun vs ws hvws =>
        ⟨hall p vs ws span span hvws, hoperands.env⟩

/-- **An expression may give way to its value.** The expression defines nothing and has a value in an
    environment of numbers and procedures. Whatever it is part of and evaluated in comes to the same there
    with the value in its place, and leaves the same, but for places, as long as nothing in the whole
    defines a name that the expression mentions. So it is where something else fails, before or after. -/
theorem value_replaces_expression {env : Environment Empty} (henv : env.Plain) {e v : Node Empty}
    (he : e.DefineFree) (hv : (evaluate env e).outcome = .ok v) (c : Context Empty)
    (htargets : ∀ name ∈ (c.fill e).targets, name ∉ e.mentions) :
    AlikeOutcomes Node.Alike (evaluate env (c.fill e)).outcome (evaluate env (c.fill v)).outcome ∧
      (evaluate env (c.fill e)).env.Alike (evaluate env (c.fill v)).env := by
  have hplain : v.IsPlain := (keeps_plain.law.evaluate env e henv trivial).2 v hv
  have hole : ∀ {a b : Environment Empty}, a.AgreesOn e.mentions env → a.Alike b →
      (evaluate a e).EndsAlike Node.Alike (evaluate b v) := by
    intro a b hagrees h
    have hvalue : (evaluate a e).outcome = .ok v :=
      (evaluate_agreesOn (List.Subset.refl e.mentions) hagrees).outcome.trans hv
    rw [hplain.evaluate_eq b]
    refine ⟨?_, ?_⟩
    · rw [hvalue]
      exact .ok rfl
    · rwa [he.evaluate_env a]
  have hends := c.evaluate_fill hole htargets (fun _ _ => rfl) fun _ => rfl
  exact ⟨hends.outcome, hends.env⟩

/-- `(begin (define y pi) (* (begin pi) (begin)))`, where the last operand fails, with and without a call
    in the middle. -/
theorem value_replaces_expression_of_failing :
    let env : Environment Empty := Environment.standard
    let e : Node Empty := .list [.symbol "begin" ⟨25, 30⟩, .symbol "pi" ⟨31, 33⟩] ⟨24, 34⟩
    let v : Node Empty := .number Environment.pi ⟨31, 33⟩
    let definition : Node Empty :=
      .list [.symbol "define" ⟨8, 14⟩, .symbol "y" ⟨15, 16⟩, .symbol "pi" ⟨17, 19⟩] ⟨7, 20⟩
    let c : Context Empty := .operand (.symbol "begin" ⟨1, 6⟩) rfl [definition]
      (.operand (.symbol "*" ⟨22, 23⟩) rfl [] .hole [.list [.symbol "begin" ⟨36, 41⟩] ⟨35, 42⟩] ⟨21, 43⟩)
      [] ⟨0, 44⟩
    env.Plain ∧ e.DefineFree ∧ (evaluate env e).outcome = .ok v ∧
      (∀ name ∈ (c.fill e).targets, name ∉ e.mentions) ∧
      AlikeOutcomes Node.Alike (evaluate env (c.fill e)).outcome (evaluate env (c.fill v)).outcome ∧
      (evaluate env (c.fill e)).env.Alike (evaluate env (c.fill v)).env := by
  intro env e v definition c
  have henv : env.Plain := Environment.ordinary_standard.plain
  have he : e.DefineFree := by
    refine Node.defineFree_call rfl ?_ _
    simp only [List.forall_mem_cons, List.not_mem_nil, false_imp_iff, implies_true, and_true]
    exact ⟨Node.defineFree_symbol _ _, Node.defineFree_symbol _ _⟩
  have hv : (evaluate env e).outcome = .ok v := rfl
  have htargets : ∀ name ∈ (c.fill e).targets, name ∉ e.mentions := by decide
  exact ⟨henv, he, hv, htargets, value_replaces_expression henv he hv c htargets⟩

end MiniLisp
