import Mathlib.Data.List.Basic
import MiniLisp.Evaluation
import MiniLisp.Proofs.Bare

/-!
# Laws: what holds of every evaluation

Whatever is claimed of all evaluations is shown in the same way, by going through what an evaluation
can come to. This file goes through it once:

* `Node.formInduction`: the forms a node can have, each with what is evaluated inside of it;
* `Environment.resolve_eq_ok`, `Environment.resolve_eq_error`: which heads can be called, and what is
  wrong with the others;
* `Law P Q`: the cases, each with the run it comes to. `P` is about nodes, `Q` about operands; where
  something is evaluated on the way, its run is given, once for a value and once for an error;
* **`Law.evaluate`, `Law.evaluateAll`**: what obeys every case holds of every evaluation.
-/

namespace MiniLisp

variable {ω : Type}

/-! ## 1. Heads and forms -/

namespace Node

theorem exists_eq_symbol {n : Node ω} (h : n.kind = .symbol) : ∃ name span, n = .symbol name span := by
  cases n with
  | symbol name span => exact ⟨name, span, rfl⟩
  | number x span => cases h
  | list items span => cases h
  | procedure p span => cases h

theorem exists_eq_number {n : Node ω} (h : n.kind = .number) : ∃ x span, n = .number x span := by
  cases n with
  | number x span => exact ⟨x, span, rfl⟩
  | symbol name span => cases h
  | list items span => cases h
  | procedure p span => cases h

theorem exists_eq_procedure {n : Node ω} (h : n.kind = .procedure) :
    ∃ p span, n = .procedure p span := by
  cases n with
  | procedure p span => exact ⟨p, span, rfl⟩
  | symbol name span => cases h
  | number x span => cases h
  | list items span => cases h

theorem isDefine_iff {n : Node ω} : n.isDefine = true ↔ ∃ span, n = .symbol defineWord span := by
  cases n with
  | symbol name span => simp [isDefine]
  | number x span => simp [isDefine]
  | list items span => simp [isDefine]
  | procedure p span => simp [isDefine]

theorem isDefine_symbol_eq_false {name : String} {span : Span} :
    (symbol name span : Node ω).isDefine = false ↔ name ≠ defineWord := by
  simp [isDefine]

theorem isDefine_eq_false_of_kind {n : Node ω} (h : n.kind ≠ .symbol) : n.isDefine = false := by
  cases n with
  | symbol name span => exact absurd rfl h
  | number x span => rfl
  | list items span => rfl
  | procedure p span => rfl

/-- A statement about nodes goes to a node from what is evaluated inside of it: from the expression of a
    definition, and from the operands of a call. Definitions out of shape evaluate nothing. -/
@[elab_as_elim]
theorem formInduction {P : Node ω → Prop} (symbol : ∀ name span, P (.symbol name span))
    (number : ∀ x span, P (.number x span)) (procedure : ∀ p span, P (.procedure p span))
    (empty : ∀ span, P (.list [] span))
    (count : ∀ t operands span, operands.length ≠ 2 →
      P (.list (.symbol defineWord t :: operands) span))
    (target : ∀ t place expression span, place.kind ≠ .symbol →
      P (.list [.symbol defineWord t, place, expression] span))
    (define : ∀ t name u expression span, P expression →
      P (.list [.symbol defineWord t, .symbol name u, expression] span))
    (call : ∀ head operands span, head.isDefine = false → (∀ n ∈ operands, P n) →
      P (.list (head :: operands) span)) (n : Node ω) : P n := by
  induction n with
  | symbol name span => exact symbol name span
  | number x span => exact number x span
  | procedure p span => exact procedure p span
  | list items span ih =>
    cases items with
    | nil => exact empty span
    | cons head operands =>
      obtain ⟨_, ih⟩ := List.forall_mem_cons.mp ih
      by_cases hdef : head.isDefine = true
      · obtain ⟨t, rfl⟩ := isDefine_iff.mp hdef
        by_cases hlen : operands.length = 2
        · obtain ⟨place, expression, rfl⟩ := List.length_eq_two.mp hlen
          by_cases hplace : place.kind = .symbol
          · obtain ⟨name, u, rfl⟩ := exists_eq_symbol hplace
            exact define t name u expression span (ih expression (by simp))
          · exact target t place expression span hplace
        · exact count t operands span hlen
      · exact call head operands span (Bool.eq_false_iff.mpr hdef) ih

end Node

namespace Environment

variable {env : Environment ω} {head : Node ω} {name : String}

theorem resolve_of_unbound (h : env.get? name = none) (span : Span) :
    env.resolve (.symbol name span) = .error (.unbound name span) := by
  simp [resolve, lookup, h]

theorem resolve_of_bound {p : Procedure ω} {place : Span}
    (h : env.get? name = some (.procedure p place)) (span : Span) :
    env.resolve (.symbol name span) = .ok p := by
  simp [resolve, lookup, h]

theorem resolve_of_value {value : Node ω} (h : env.get? name = some value)
    (hkind : value.kind ≠ .procedure) (span : Span) :
    env.resolve (.symbol name span) = .error (.notAProcedure value.unplaced span) := by
  cases value with
  | procedure p place => exact absurd rfl hkind
  | symbol other place => simp [resolve, lookup, h]
  | number x place => simp [resolve, lookup, h]
  | list items place => simp [resolve, lookup, h]

theorem resolve_of_other (hsymbol : head.kind ≠ .symbol) (hprocedure : head.kind ≠ .procedure) :
    env.resolve head = .error (.notAProcedure head.unplaced head.span) := by
  cases head with
  | symbol other span => exact absurd rfl hsymbol
  | procedure p span => exact absurd rfl hprocedure
  | number x span => rfl
  | list items span => rfl

/-- What can be called is a procedure or bound to one. -/
theorem resolve_eq_ok {p : Procedure ω} (h : env.resolve head = .ok p) :
    (∃ span, head = .procedure p span) ∨
      ∃ name span place, head = .symbol name span ∧ env.get? name = some (.procedure p place) := by
  cases head with
  | number x span => cases h
  | list items span => cases h
  | procedure q span =>
    cases h
    exact .inl ⟨span, rfl⟩
  | symbol name span =>
    cases hget : env.get? name with
    | none =>
      rw [resolve_of_unbound hget] at h
      cases h
    | some value =>
      by_cases hkind : value.kind = .procedure
      · obtain ⟨q, place, rfl⟩ := Node.exists_eq_procedure hkind
        rw [resolve_of_bound hget] at h
        cases h
        exact .inr ⟨name, span, place, rfl, hget⟩
      · rw [resolve_of_value hget hkind] at h
        cases h

/-- What cannot be called is an unbound symbol, a symbol bound to something else, or something else
    itself. -/
theorem resolve_eq_error {cause : EvalError ω} (h : env.resolve head = .error cause) :
    (∃ name span, head = .symbol name span ∧ env.get? name = none ∧ cause = .unbound name span) ∨
      (∃ name span value, head = .symbol name span ∧ env.get? name = some value ∧
        value.kind ≠ .procedure ∧ cause = .notAProcedure value.unplaced span) ∨
      (head.kind ≠ .symbol ∧ head.kind ≠ .procedure ∧
        cause = .notAProcedure head.unplaced head.span) := by
  by_cases hprocedure : head.kind = .procedure
  · obtain ⟨p, span, rfl⟩ := Node.exists_eq_procedure hprocedure
    cases h
  by_cases hsymbol : head.kind = .symbol
  · obtain ⟨name, span, rfl⟩ := Node.exists_eq_symbol hsymbol
    cases hget : env.get? name with
    | none =>
      rw [resolve_of_unbound hget] at h
      cases h
      exact .inl ⟨name, span, rfl, hget, rfl⟩
    | some value =>
      by_cases hkind : value.kind = .procedure
      · obtain ⟨p, place, rfl⟩ := Node.exists_eq_procedure hkind
        rw [resolve_of_bound hget] at h
        cases h
      · rw [resolve_of_value hget hkind] at h
        cases h
        exact .inr (.inl ⟨name, span, value, rfl, hget, hkind, rfl⟩)
  · rw [resolve_of_other hsymbol hprocedure] at h
    cases h
    exact .inr (.inr ⟨hsymbol, hprocedure, rfl⟩)

end Environment

/-! ## 2. Definitions out of shape -/

section Shape

variable [Operation ω] (env : Environment ω) {head : Node ω}

/-- A definition with other than two operands is refused as it stands. -/
theorem evaluate_define_count (h : head.isDefine = true) {operands : List (Node ω)}
    (hlen : operands.length ≠ 2) (s : Span) :
    evaluate env (.list (head :: operands) s) =
      .fail env (.invalidForm (.operandCount operands.length) s) := by
  rw [evaluate.eq_def]
  simp only [h, if_true]
  split
  · exact absurd rfl hlen
  · exact absurd rfl hlen
  · rfl

/-- A definition of something that is no symbol is refused before its expression is evaluated. -/
theorem evaluate_define_target (h : head.isDefine = true) {target : Node ω}
    (ht : target.kind ≠ .symbol) (expression : Node ω) (s : Span) :
    evaluate env (.list [head, target, expression] s) =
      .fail env (.invalidForm (.target target.kind) target.span) := by
  rw [evaluate.eq_def]
  cases target with
  | symbol name t => exact absurd rfl ht
  | number x t => simp [h]
  | list items t => simp [h]
  | procedure p t => simp [h]

end Shape

/-! ## 3. Case by case -/

/-- What an evaluation can come to. `P` is a statement about a node, evaluated in an environment, and
    its run, and `Q` is one about operands. -/
structure Law [Operation ω]
    (P : Environment ω → Node ω → Run ω (EvalError ω) (Node ω) → Prop)
    (Q : Environment ω → List (Node ω) → Run ω (EvalError ω) (List (Node ω)) → Prop) : Prop where
  number : ∀ env x s, P env (.number x s) (.done env (.number x s))
  procedure : ∀ env p s, P env (.procedure p s) (.done env (.procedure p s))
  bound : ∀ env name s value, env.get? name = some value →
    P env (.symbol name s) (.done env value)
  unbound : ∀ env name s, env.get? name = none →
    P env (.symbol name s) (.fail env (.unbound name s))
  empty : ∀ env s, P env (.list [] s) (.fail env (.invalidForm .emptyList s))
  count : ∀ env t operands s, operands.length ≠ 2 →
    P env (.list (.symbol defineWord t :: operands) s)
      (.fail env (.invalidForm (.operandCount operands.length) s))
  target : ∀ env t place expression s, place.kind ≠ .symbol →
    P env (.list [.symbol defineWord t, place, expression] s)
      (.fail env (.invalidForm (.target place.kind) place.span))
  define : ∀ env t name u expression s value after log,
    P env expression ⟨.ok value, after, log⟩ →
    P env (.list [.symbol defineWord t, .symbol name u, expression] s)
      ⟨.ok value, after.define name value, log ++ [.defined name value]⟩
  defineFails : ∀ env t name u expression s cause after log,
    P env expression ⟨.error cause, after, log⟩ →
    P env (.list [.symbol defineWord t, .symbol name u, expression] s) ⟨.error cause, after, log⟩
  head : ∀ env head operands s cause, head.isDefine = false → env.resolve head = .error cause →
    P env (.list (head :: operands) s) (.fail env cause)
  call : ∀ env head operands s p args after log, head.isDefine = false →
    env.resolve head = .ok p → Q env operands ⟨.ok args, after, log⟩ →
    P env (.list (head :: operands) s)
      ⟨p.apply args s, after, log ++ [.called p.name args.length]⟩
  callFails : ∀ env head operands s p cause after log, head.isDefine = false →
    env.resolve head = .ok p → Q env operands ⟨.error cause, after, log⟩ →
    P env (.list (head :: operands) s) ⟨.error cause, after, log⟩
  nil : ∀ env, Q env [] (.done env [])
  cons : ∀ env n rest value after log values last more, P env n ⟨.ok value, after, log⟩ →
    Q after rest ⟨.ok values, last, more⟩ →
    Q env (n :: rest) ⟨.ok (value.withSpan n.span :: values), last, log ++ more⟩
  firstFails : ∀ env n rest cause after log, P env n ⟨.error cause, after, log⟩ →
    Q env (n :: rest) ⟨.error cause, after, log⟩
  restFails : ∀ env n rest value after log cause last more, P env n ⟨.ok value, after, log⟩ →
    Q after rest ⟨.error cause, last, more⟩ →
    Q env (n :: rest) ⟨.error cause, last, log ++ more⟩

namespace Law

variable [Operation ω]
variable {P : Environment ω → Node ω → Run ω (EvalError ω) (Node ω) → Prop}
variable {Q : Environment ω → List (Node ω) → Run ω (EvalError ω) (List (Node ω)) → Prop}

/-- What holds of every single operand holds of all of them together. -/
theorem evaluateAll_of_forall (law : Law P Q) {operands : List (Node ω)}
    (h : ∀ n ∈ operands, ∀ env, P env n (evaluate env n)) (env : Environment ω) :
    Q env operands (evaluateAll env operands) := by
  induction operands generalizing env with
  | nil =>
    rw [evaluateAll_nil]
    exact law.nil env
  | cons n rest ih =>
    obtain ⟨hfirst, hothers⟩ := List.forall_mem_cons.mp h
    have hn := hfirst env
    rcases hrun : MiniLisp.evaluate env n with ⟨outcome, after, log⟩
    rw [hrun] at hn
    cases outcome with
    | error cause =>
      rw [evaluateAll_cons_of_error hrun]
      exact law.firstFails env n rest cause after log hn
    | ok value =>
      have hr := ih hothers after
      rcases hrest : MiniLisp.evaluateAll after rest with ⟨outcome, last, more⟩
      rw [hrest] at hr
      cases outcome with
      | error cause =>
        rw [evaluateAll_cons_of_rest_error hrun hrest]
        exact law.restFails env n rest value after log cause last more hn hr
      | ok values =>
        rw [evaluateAll_cons_of_ok hrun hrest]
        exact law.cons env n rest value after log values last more hn hr

/-- **What obeys every case holds of the evaluation of every node.** -/
theorem evaluate (law : Law P Q) (env : Environment ω) (n : Node ω) :
    P env n (MiniLisp.evaluate env n) := by
  induction n using Node.formInduction generalizing env with
  | symbol name s =>
    cases h : env.get? name with
    | none =>
      rw [evaluate_of_unbound h]
      exact law.unbound env name s h
    | some value =>
      rw [evaluate_of_bound h]
      exact law.bound env name s value h
  | number x s =>
    rw [evaluate_number]
    exact law.number env x s
  | procedure p s =>
    rw [evaluate_procedure]
    exact law.procedure env p s
  | empty s =>
    rw [evaluate_nil]
    exact law.empty env s
  | count t operands s hlen =>
    rw [evaluate_define_count env rfl hlen]
    exact law.count env t operands s hlen
  | target t place expression s hplace =>
    rw [evaluate_define_target env rfl hplace]
    exact law.target env t place expression s hplace
  | define t name u expression s ih =>
    have he := ih env
    rcases hrun : MiniLisp.evaluate env expression with ⟨outcome, after, log⟩
    rw [hrun] at he
    cases outcome with
    | error cause =>
      rw [evaluate_define_of_error rfl hrun]
      exact law.defineFails env t name u expression s cause after log he
    | ok value =>
      rw [evaluate_define_of_ok rfl hrun]
      exact law.define env t name u expression s value after log he
  | call head operands s hcall ih =>
    cases hp : env.resolve head with
    | error cause =>
      rw [evaluate_call_of_head_error hcall hp]
      exact law.head env head operands s cause hcall hp
    | ok p =>
      have ho := law.evaluateAll_of_forall ih env
      rcases hrun : MiniLisp.evaluateAll env operands with ⟨outcome, after, log⟩
      rw [hrun] at ho
      cases outcome with
      | error cause =>
        rw [evaluate_call_of_error hcall hp hrun]
        exact law.callFails env head operands s p cause after log hcall hp ho
      | ok args =>
        rw [evaluate_call_of_ok hcall hp hrun]
        exact law.call env head operands s p args after log hcall hp ho

/-- What obeys every case holds of the evaluation of all operands. -/
theorem evaluateAll (law : Law P Q) (env : Environment ω) (operands : List (Node ω)) :
    Q env operands (MiniLisp.evaluateAll env operands) :=
  law.evaluateAll_of_forall (fun n _ env => law.evaluate env n) env

end Law

end MiniLisp
