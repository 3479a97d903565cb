import MiniLisp.Proofs.Law

/-!
# Semantics: the rules of evaluation

What a node evaluates to can be told by rules, each about one kind of node and one way it can go. This
file fixes the rules and ties the evaluator to them:

* `Applies`: what a procedure makes of evaluated arguments. How many there are is judged before what
  they are, and of two that are no numbers the left one is blamed;
* `Calls`: which heads make a list a call. A name is looked up before any operand is evaluated, so what
  the operands bind does not matter to the call;
* `Evaluates`, `EvaluatesAll`: what nodes and operands evaluate to, with the environment they leave.
  Each rule that takes a value on has a partner that takes an error on;
* **`evaluate_iff_evaluates`**: the evaluator answers what the rules say, and the rules say one thing.
-/

namespace MiniLisp

variable {ω : Type}

/-! ## 1. Applying procedures -/

/-- A procedure, applied to arguments by a call at `span`, has an outcome. -/
inductive Applies [Operation ω] :
    Procedure ω → List (Node ω) → Span → Except (EvalError ω) (Node ω) → Prop
  | numbers (f : Float → Float → Float) (name : String) (x y : Float) (s t span : Span) :
      Applies (.binary f name) [.number x s, .number y t] span (.ok (.number (f x y) span))
  | count (f : Float → Float → Float) (name : String) (args : List (Node ω)) (span : Span)
      (h : args.length ≠ 2) :
      Applies (.binary f name) args span
        (.error (.wrongArity name (.exactly 2) args.length span))
  | left (f : Float → Float → Float) (name : String) (a b : Node ω) (span : Span)
      (h : a.kind ≠ .number) :
      Applies (.binary f name) [a, b] span (.error (.typeMismatch .number a.unplaced a.span))
  | right (f : Float → Float → Float) (name : String) (x : Float) (s : Span) (b : Node ω)
      (span : Span) (h : b.kind ≠ .number) :
      Applies (.binary f name) [.number x s, b] span
        (.error (.typeMismatch .number b.unplaced b.span))
  | last (name : String) (args : List (Node ω)) (value : Node ω) (span : Span) :
      Applies (.variadic .sequence name) (args ++ [value]) span (.ok value)
  | none (name : String) (span : Span) :
      Applies (.variadic .sequence name) [] span
        (.error (.wrongArity Environment.sequenceName (.atLeast 1) 0 span))
  | host (f : ω) (name : String) (args : List (Node ω)) (span : Span) :
      Applies (.variadic (.host f) name) args span (Operation.call f args span)

/-- A head makes a list a call of a procedure. The word for definitions never does. -/
inductive Calls (env : Environment ω) : Node ω → Procedure ω → Prop
  | name {name : String} {p : Procedure ω} {place : Span} (span : Span) (h : name ≠ defineWord)
      (bound : env.get? name = some (.procedure p place)) : Calls env (.symbol name span) p
  | procedure (p : Procedure ω) (span : Span) : Calls env (.procedure p span) p

/-! ## 2. Evaluating -/

mutual

/-- A node, evaluated in an environment, has an outcome and leaves an environment. -/
inductive Evaluates [Operation ω] :
    Environment ω → Node ω → Except (EvalError ω) (Node ω) → Environment ω → Prop
  | number {env : Environment ω} (x : Float) (span : Span) :
      Evaluates env (.number x span) (.ok (.number x span)) env
  | procedure {env : Environment ω} (p : Procedure ω) (span : Span) :
      Evaluates env (.procedure p span) (.ok (.procedure p span)) env
  | bound {env : Environment ω} {name : String} {value : Node ω} (span : Span)
      (h : env.get? name = some value) : Evaluates env (.symbol name span) (.ok value) env
  | unbound {env : Environment ω} {name : String} (span : Span) (h : env.get? name = none) :
      Evaluates env (.symbol name span) (.error (.unbound name span)) env
  | empty {env : Environment ω} (span : Span) :
      Evaluates env (.list [] span) (.error (.invalidForm .emptyList span)) env
  | defineCount {env : Environment ω} {operands : List (Node ω)} (place span : Span)
      (h : operands.length ≠ 2) :
      Evaluates env (.list (.symbol defineWord place :: operands) span)
        (.error (.invalidForm (.operandCount operands.length) span)) env
  | defineTarget {env : Environment ω} {target : Node ω} (place : Span) (expression : Node ω)
      (span : Span) (h : target.kind ≠ .symbol) :
      Evaluates env (.list [.symbol defineWord place, target, expression] span)
        (.error (.invalidForm (.target target.kind) target.span)) env
  | define {env after : Environment ω} {expression value : Node ω} (place : Span) (name : String)
      (t span : Span) (h : Evaluates env expression (.ok value) after) :
      Evaluates env (.list [.symbol defineWord place, .symbol name t, expression] span) (.ok value)
        (after.define name value)
  | defineFails {env after : Environment ω} {expression : Node ω} {cause : EvalError ω}
      (place : Span) (name : String) (t span : Span)
      (h : Evaluates env expression (.error cause) after) :
      Evaluates env (.list [.symbol defineWord place, .symbol name t, expression] span)
        (.error cause) after
  | headUnbound {env : Environment ω} {name : String} (place : Span) (operands : List (Node ω))
      (span : Span) (hname : name ≠ defineWord) (h : env.get? name = none) :
      Evaluates env (.list (.symbol name place :: operands) span) (.error (.unbound name place)) env
  | headValue {env : Environment ω} {name : String} {value : Node ω} (place : Span)
      (operands : List (Node ω)) (span : Span) (hname : name ≠ defineWord)
      (h : env.get? name = some value) (hvalue : value.kind ≠ .procedure) :
      Evaluates env (.list (.symbol name place :: operands) span)
        (.error (.notAProcedure value.unplaced place)) env
  | headOther {env : Environment ω} {head : Node ω} (operands : List (Node ω)) (span : Span)
      (hsymbol : head.kind ≠ .symbol) (hprocedure : head.kind ≠ .procedure) :
      Evaluates env (.list (head :: operands) span)
        (.error (.notAProcedure head.unplaced head.span)) env
  | call {env after : Environment ω} {head : Node ω} {p : Procedure ω} {operands args : List (Node ω)}
      {span : Span} {outcome : Except (EvalError ω) (Node ω)} (hp : Calls env head p)
      (hargs : EvaluatesAll env operands (.ok args) after) (h : Applies p args span outcome) :
      Evaluates env (.list (head :: operands) span) outcome after
  | callFails {env after : Environment ω} {head : Node ω} {p : Procedure ω}
      {operands : List (Node ω)} {cause : EvalError ω} (span : Span) (hp : Calls env head p)
      (hargs : EvaluatesAll env operands (.error cause) after) :
      Evaluates env (.list (head :: operands) span) (.error cause) after

/-- Operands, evaluated from left to right, have values, each at its operand's place, or an error. -/
inductive EvaluatesAll [Operation ω] :
    Environment ω → List (Node ω) → Except (EvalError ω) (List (Node ω)) → Environment ω → Prop
  | nil {env : Environment ω} : EvaluatesAll env [] (.ok []) env
  | cons {env after last : Environment ω} {n value : Node ω} {rest values : List (Node ω)}
      (h : Evaluates env n (.ok value) after) (hrest : EvaluatesAll after rest (.ok values) last) :
      EvaluatesAll env (n :: rest) (.ok (value.withSpan n.span :: values)) last
  | firstFails {env after : Environment ω} {n : Node ω} {cause : EvalError ω} (rest : List (Node ω))
      (h : Evaluates env n (.error cause) after) : EvaluatesAll env (n :: rest) (.error cause) after
  | restFails {env after last : Environment ω} {n value : Node ω} {rest : List (Node ω)}
      {cause : EvalError ω} (h : Evaluates env n (.ok value) after)
      (hrest : EvaluatesAll after rest (.error cause) last) :
      EvaluatesAll env (n :: rest) (.error cause) last

end

/-! ## 3. One procedure, one head -/

section Applying

variable [Operation ω]

/-- Applying a procedure has the outcome of a rule. -/
theorem applies_apply (p : Procedure ω) (args : List (Node ω)) (span : Span) :
    Applies p args span (p.apply args span) := by
  cases p with
  | binary f name =>
    by_cases hlen : args.length = 2
    · obtain ⟨a, b, rfl⟩ := List.length_eq_two.mp hlen
      by_cases ha : a.kind = .number
      · obtain ⟨x, s, rfl⟩ := Node.exists_eq_number ha
        by_cases hb : b.kind = .number
        · obtain ⟨y, t, rfl⟩ := Node.exists_eq_number hb
          exact .numbers f name x y s t span
        · rw [apply_binary_right f name x s hb span]
          exact .right f name x s b span hb
      · rw [apply_binary_left f name ha b span]
        exact .left f name a b span ha
    · rw [apply_binary_count f name hlen span]
      exact .count f name args span hlen
  | variadic operation name =>
    cases operation with
    | host f => exact .host f name args span
    | sequence =>
      rcases List.eq_nil_or_concat args with rfl | ⟨before, value, rfl⟩
      · exact .none name span
      · rw [List.concat_eq_append, apply_sequence_concat]
        exact .last name before value span

/-- A procedure and its arguments fit one rule alone. -/
theorem Applies.eq_apply {p : Procedure ω} {args : List (Node ω)} {span : Span}
    {outcome : Except (EvalError ω) (Node ω)} (h : Applies p args span outcome) :
    p.apply args span = outcome := by
  cases h with
  | numbers f name x y s t => rfl
  | count f name _ _ h => exact apply_binary_count f name h span
  | left f name a b _ h => exact apply_binary_left f name h b span
  | right f name x s b _ h => exact apply_binary_right f name x s h span
  | last name before value => exact apply_sequence_concat name before value span
  | none name => rfl
  | host f name => rfl

end Applying

theorem Calls.isDefine_eq_false {env : Environment ω} {head : Node ω} {p : Procedure ω}
    (h : Calls env head p) : head.isDefine = false := by
  cases h with
  | name span h bound => simp [Node.isDefine, h]
  | procedure p span => rfl

theorem Calls.resolve_eq {env : Environment ω} {head : Node ω} {p : Procedure ω}
    (h : Calls env head p) : env.resolve head = .ok p := by
  cases h with
  | name span h bound => exact Environment.resolve_of_bound bound span
  | procedure p span => rfl

/-- What can be called, and is no definition, is called. -/
theorem calls_of_resolve {env : Environment ω} {head : Node ω} {p : Procedure ω}
    (hcall : head.isDefine = false) (h : env.resolve head = .ok p) : Calls env head p := by
  rcases Environment.resolve_eq_ok h with ⟨span, rfl⟩ | ⟨name, span, place, rfl, hbound⟩
  · exact .procedure p span
  · exact .name span (Node.isDefine_symbol_eq_false.mp hcall) hbound

/-! ## 4. Every evaluation follows the rules -/

section Following

variable [Operation ω]

/-- **Each case of an evaluation is a rule.** -/
theorem evaluates_law :
    Law (fun (env : Environment ω) n r => Evaluates env n r.outcome r.env)
      (fun env operands r => EvaluatesAll env operands r.outcome r.env) where
  number _ x s := .number x s
  procedure _ p s := .procedure p s
  bound _ _ s _ h := .bound s h
  unbound _ _ s h := .unbound s h
  empty _ s := .empty s
  count _ t _ s h := .defineCount t s h
  target _ t _ expression s h := .defineTarget t expression s h
  define _ t name u _ s _ _ _ h := .define t name u s h
  defineFails _ t name u _ s _ _ _ h := .defineFails t name u s h
  head _ head operands s _ hcall h := by
    rcases Environment.resolve_eq_error h with ⟨name, t, rfl, hget, rfl⟩ |
      ⟨name, t, value, rfl, hget, hvalue, rfl⟩ | ⟨hsymbol, hprocedure, rfl⟩
    · exact .headUnbound t operands s (Node.isDefine_symbol_eq_false.mp hcall) hget
    · exact .headValue t operands s (Node.isDefine_symbol_eq_false.mp hcall) hget hvalue
    · exact .headOther operands s hsymbol hprocedure
  call _ _ _ s p args _ _ hcall hp h := .call (calls_of_resolve hcall hp) h (applies_apply p args s)
  callFails _ _ _ s _ _ _ _ hcall hp h := .callFails s (calls_of_resolve hcall hp) h
  nil _ := .nil
  cons _ _ _ _ _ _ _ _ _ h hrest := .cons h hrest
  firstFails _ _ rest _ _ _ h := .firstFails rest h
  restFails _ _ _ _ _ _ _ _ _ h hrest := .restFails h hrest

/-! ## 5. The rules leave no choice -/

/-- The run has this outcome and leaves this environment. -/
def Run.Ends {ε α : Type} (r : Run ω ε α) (outcome : Except ε α) (after : Environment ω) : Prop :=
  r.outcome = outcome ∧ r.env = after

omit [Operation ω] in
theorem Run.Ends.eq {ε α : Type} {r : Run ω ε α} {outcome : Except ε α} {after : Environment ω}
    (h : r.Ends outcome after) : r = ⟨outcome, after, r.log⟩ := by
  obtain ⟨rfl, rfl⟩ := h
  rfl

mutual

/-- What the rules allow is what the evaluator answers, for a node ... -/
theorem Evaluates.ends {env after : Environment ω} {n : Node ω}
    {outcome : Except (EvalError ω) (Node ω)} (h : Evaluates env n outcome after) :
    (evaluate env n).Ends outcome after := by
  cases h with
  | number x span =>
    rw [evaluate_number]
    exact ⟨rfl, rfl⟩
  | procedure p span =>
    rw [evaluate_procedure]
    exact ⟨rfl, rfl⟩
  | bound span h =>
    rw [evaluate_of_bound h]
    exact ⟨rfl, rfl⟩
  | unbound span h =>
    rw [evaluate_of_unbound h]
    exact ⟨rfl, rfl⟩
  | empty span =>
    rw [evaluate_nil]
    exact ⟨rfl, rfl⟩
  | defineCount place span h =>
    rw [evaluate_define_count env rfl h]
    exact ⟨rfl, rfl⟩
  | defineTarget place expression span h =>
    rw [evaluate_define_target env rfl h]
    exact ⟨rfl, rfl⟩
  | define place name t span h =>
    rw [evaluate_define_of_ok rfl h.ends.eq]
    exact ⟨rfl, rfl⟩
  | defineFails place name t span h =>
    rw [evaluate_define_of_error rfl h.ends.eq]
    exact ⟨rfl, rfl⟩
  | headUnbound place operands span hname h =>
    rw [evaluate_call_of_head_error (Node.isDefine_symbol_eq_false.mpr hname)
      (Environment.resolve_of_unbound h place)]
    exact ⟨rfl, rfl⟩
  | headValue place operands span hname h hvalue =>
    rw [evaluate_call_of_head_error (Node.isDefine_symbol_eq_false.mpr hname)
      (Environment.resolve_of_value h hvalue place)]
    exact ⟨rfl, rfl⟩
  | headOther operands span hsymbol hprocedure =>
    rw [evaluate_call_of_head_error (Node.isDefine_eq_false_of_kind hsymbol)
      (Environment.resolve_of_other hsymbol hprocedure)]
    exact ⟨rfl, rfl⟩
  | call hp hargs h =>
    rw [evaluate_call_of_ok hp.isDefine_eq_false hp.resolve_eq hargs.ends.eq]
    exact ⟨h.eq_apply, rfl⟩
  | callFails span hp hargs =>
    rw [evaluate_call_of_error hp.isDefine_eq_false hp.resolve_eq hargs.ends.eq]
    exact ⟨rfl, rfl⟩

/-- ... and for operands. -/
theorem EvaluatesAll.ends {env after : Environment ω} {operands : List (Node ω)}
    {outcome : Except (EvalError ω) (List (Node ω))}
    (h : EvaluatesAll env operands outcome after) :
    (evaluateAll env operands).Ends outcome after := by
  cases h with
  | nil =>
    rw [evaluateAll_nil]
    exact ⟨rfl, rfl⟩
  | cons h hrest =>
    rw [evaluateAll_cons_of_ok h.ends.eq hrest.ends.eq]
    exact ⟨rfl, rfl⟩
  | firstFails rest h =>
    rw [evaluateAll_cons_of_error h.ends.eq]
    exact ⟨rfl, rfl⟩
  | restFails h hrest =>
    rw [evaluateAll_cons_of_rest_error h.ends.eq hrest.ends.eq]
    exact ⟨rfl, rfl⟩

end

/-- **The evaluator answers what the rules say.** In every environment, a node evaluates by the rules to
    an outcome, leaving an environment, exactly where the evaluator has this outcome and leaves this
    environment; so by the rules every node has an outcome, and only one. -/
theorem evaluate_iff_evaluates (env : Environment ω) (n : Node ω) :
    (∀ outcome after, ((evaluate env n).outcome = outcome ∧ (evaluate env n).env = after) ↔
      Evaluates env n outcome after) ∧
    (∃ outcome after, Evaluates env n outcome after) ∧
    ∀ outcome other after different, Evaluates env n outcome after →
      Evaluates env n other different → outcome = other ∧ after = different := by
  have follows : Evaluates env n (evaluate env n).outcome (evaluate env n).env :=
    evaluates_law.evaluate env n
  refine ⟨fun outcome after => ⟨?_, fun h => h.ends⟩, ⟨_, _, follows⟩, ?_⟩
  · rintro ⟨rfl, rfl⟩
    exact follows
  · intro outcome other after different h k
    obtain ⟨rfl, rfl⟩ := h.ends
    obtain ⟨rfl, rfl⟩ := k.ends
    exact ⟨rfl, rfl⟩

end Following

end MiniLisp
