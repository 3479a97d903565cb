import MiniLisp.Error
import MiniLisp.Run

/-!
# Evaluation

Numbers and procedures are their own values, a symbol has the value it is bound to, and a list is a
definition or a call. This file fixes:

* `(define name expression)` binds the value of the expression and has it as its value. The word is
  reserved at the head of a list, whatever it may be bound to, and the shape of the form is judged
  before anything is evaluated;
* any other list is a call. **Its head is resolved first, then the operands are evaluated from left
  to right, each in the environment the one before it left, and the procedure is applied last**; the
  first failure ends the run and what was bound before it stays bound;
* a head is never evaluated beyond a look-up: a list in that place is no procedure;
* each argument is blamed at its operand, so it takes the operand's span.
-/

namespace MiniLisp

variable {ω : Type}

/-! ## 1. Applying procedures -/

/-- What the operations of a host do with evaluated arguments; the span is that of the call. -/
class Operation (ω : Type) where
  call : ω → List (Node ω) → Span → Except (EvalError ω) (Node ω)

/-- A host may add nothing. -/
instance : Operation Empty where
  call f := nomatch f

/-- The number a node is. -/
def Node.toNumber : Node ω → Except (EvalError ω) Float
  | .number x _ => .ok x
  | n => .error (.typeMismatch .number n.unplaced n.span)

/-- The value of a sequence is its last argument. -/
def sequence (args : List (Node ω)) (span : Span) : Except (EvalError ω) (Node ω) :=
  match args.getLast? with
  | some value => .ok value
  | none => .error (.wrongArity Environment.sequenceName (.atLeast 1) 0 span)

/-- Applies a procedure to evaluated arguments. A binary one wants two, and numbers; the left one is
    judged first. -/
def Procedure.apply [Operation ω] (p : Procedure ω) (args : List (Node ω)) (span : Span) :
    Except (EvalError ω) (Node ω) :=
  match p with
  | binary f name =>
    match args with
    | [a, b] =>
      match a.toNumber, b.toNumber with
      | .ok x, .ok y => .ok (.number (f x y) span)
      | .error cause, _ => .error cause
      | .ok _, .error cause => .error cause
    | _ => .error (.wrongArity name (.exactly 2) args.length span)
  | variadic .sequence _ => sequence args span
  | variadic (.host f) _ => Operation.call f args span

/-- Applies a procedure and logs that it was called. -/
def Procedure.call [Operation ω] (p : Procedure ω) (args : List (Node ω)) (span : Span)
    (env : Environment ω) : Run ω (EvalError ω) (Node ω) :=
  (Run.ofOutcome env (p.apply args span)).note (.called p.name args.length)

@[simp] theorem sequence_concat (args : List (Node ω)) (value : Node ω) (span : Span) :
    sequence (args ++ [value]) span = .ok value := by
  simp [sequence]

theorem Node.toNumber_of_ne {n : Node ω} (h : n.kind ≠ .number) :
    n.toNumber = .error (.typeMismatch .number n.unplaced n.span) := by
  cases n with
  | number x span => exact absurd rfl h
  | symbol name span => rfl
  | list items span => rfl
  | procedure p span => rfl

/-- How many arguments there are is judged before what they are. -/
theorem apply_binary_count [Operation ω] (f : Float → Float → Float) (name : String)
    {args : List (Node ω)} (h : args.length ≠ 2) (span : Span) :
    (Procedure.binary f name).apply args span =
      .error (.wrongArity name (.exactly 2) args.length span) := by
  match args, h with
  | [], _ => rfl
  | [_], _ => rfl
  | [_, _], h => exact absurd rfl h
  | _ :: _ :: _ :: _, _ => rfl

/-- A left argument that is no number is blamed, whatever the right one is. -/
theorem apply_binary_left [Operation ω] (f : Float → Float → Float) (name : String) {a : Node ω}
    (h : a.kind ≠ .number) (b : Node ω) (span : Span) :
    (Procedure.binary f name).apply [a, b] span =
      .error (.typeMismatch .number a.unplaced a.span) := by
  simp only [Procedure.apply, Node.toNumber_of_ne h]

theorem apply_binary_right [Operation ω] (f : Float → Float → Float) (name : String) (x : Float)
    (s : Span) {b : Node ω} (h : b.kind ≠ .number) (span : Span) :
    (Procedure.binary f name).apply [.number x s, b] span =
      .error (.typeMismatch .number b.unplaced b.span) := by
  have hx : (Node.number x s : Node ω).toNumber = .ok x := rfl
  simp only [Procedure.apply, hx, Node.toNumber_of_ne h]

theorem apply_sequence_concat [Operation ω] (name : String) (args : List (Node ω)) (value : Node ω)
    (span : Span) :
    (Procedure.variadic .sequence name).apply (args ++ [value]) span = .ok value :=
  sequence_concat args value span

/-! ## 2. Names -/

/-- The word that makes a list a definition. -/
def defineWord : String := "define"

/-- The words with an evaluation rule of their own. -/
def specialForms : List String := [defineWord]

/-- Whether a node at the head of a list makes it a definition. -/
def Node.isDefine : Node ω → Bool
  | .symbol name _ => name == defineWord
  | _ => false

/-- What a symbol stands for. -/
def Environment.lookup (env : Environment ω) (name : String) (span : Span) :
    Except (EvalError ω) (Node ω) :=
  match env.get? name with
  | some value => .ok value
  | none => .error (.unbound name span)

/-- The procedure that the head of a call stands for. -/
def Environment.resolve (env : Environment ω) : Node ω → Except (EvalError ω) (Procedure ω)
  | .procedure p _ => .ok p
  | .symbol name span =>
    match env.lookup name span with
    | .ok (.procedure p _) => .ok p
    | .ok other => .error (.notAProcedure other.unplaced span)
    | .error cause => .error cause
  | other => .error (.notAProcedure other.unplaced other.span)

theorem Environment.lookup_of_bound {env : Environment ω} {name : String} {value : Node ω}
    (h : env.get? name = some value) (span : Span) : env.lookup name span = .ok value := by
  rw [lookup, h]

theorem Environment.lookup_of_unbound {env : Environment ω} {name : String} (h : env.get? name = none)
    (span : Span) : env.lookup name span = .error (.unbound name span) := by
  rw [lookup, h]

/-- Binds a name, logs it, and has the value as its value. -/
def Environment.bind (env : Environment ω) (name : String) (value : Node ω) :
    Run ω (EvalError ω) (Node ω) :=
  (Run.done (env.define name value) value).note (.defined name value)

/-! ## 3. Evaluating -/

mutual

/-- The value of a node. -/
def evaluate [Operation ω] (env : Environment ω) : Node ω → Run ω (EvalError ω) (Node ω)
  | .number x span => .done env (.number x span)
  | .procedure p span => .done env (.procedure p span)
  | .symbol name span => .ofOutcome env (env.lookup name span)
  | .list [] span => .fail env (.invalidForm .emptyList span)
  | .list (head :: operands) span =>
    if head.isDefine then
      match operands with
      | [.symbol name _, expression] =>
        (evaluate env expression).andThen fun value after => after.bind name value
      | [target, _] => .fail env (.invalidForm (.target target.kind) target.span)
      | _ => .fail env (.invalidForm (.operandCount operands.length) span)
    else
      match env.resolve head with
      | .error cause => .fail env cause
      | .ok p => (evaluateAll env operands).andThen fun args after => p.call args span after

/-- The values of operands, from left to right, each with its operand's span. -/
def evaluateAll [Operation ω] (env : Environment ω) :
    List (Node ω) → Run ω (EvalError ω) (List (Node ω))
  | [] => .done env []
  | n :: rest =>
    (evaluate env n).andThen fun value after =>
      (evaluateAll after rest).andThen fun values last =>
        .done last (value.withSpan n.span :: values)

end

/-! ## 4. Case by case -/

section Cases

variable [Operation ω] (env : Environment ω)

@[simp] theorem evaluate_number (x : Float) (s : Span) :
    evaluate env (.number x s) = .done env (.number x s) := by simp [evaluate]

@[simp] theorem evaluate_procedure (p : Procedure ω) (s : Span) :
    evaluate env (.procedure p s) = .done env (.procedure p s) := by simp [evaluate]

@[simp] theorem evaluate_symbol (name : String) (s : Span) :
    evaluate env (.symbol name s) = .ofOutcome env (env.lookup name s) := by simp [evaluate]

@[simp] theorem evaluate_nil (s : Span) :
    evaluate env (.list [] s) = .fail env (.invalidForm .emptyList s) := by simp [evaluate]

/-- A definition of the right shape evaluates its expression and binds the value. -/
theorem evaluate_define {head : Node ω} (h : head.isDefine = true) (name : String)
    (expression : Node ω) (t s : Span) :
    evaluate env (.list [head, .symbol name t, expression] s) =
      (evaluate env expression).andThen fun value after => after.bind name value := by
  simp [evaluate, h]

/-- A call resolves its head, evaluates its operands and applies the procedure, in this order. -/
theorem evaluate_call {head : Node ω} (h : head.isDefine = false) (operands : List (Node ω))
    (s : Span) :
    evaluate env (.list (head :: operands) s) =
      match env.resolve head with
      | .error cause => .fail env cause
      | .ok p => (evaluateAll env operands).andThen fun args after => p.call args s after := by
  rw [evaluate.eq_def]
  simp [h]

@[simp] theorem evaluateAll_nil : evaluateAll env [] = .done env [] := by simp [evaluateAll]

/-- Operands are evaluated one after the other. -/
theorem evaluateAll_cons (n : Node ω) (rest : List (Node ω)) :
    evaluateAll env (n :: rest) =
      (evaluate env n).andThen fun value after =>
        (evaluateAll after rest).andThen fun values last =>
          .done last (value.withSpan n.span :: values) := by
  simp [evaluateAll]

/-- Operands may be evaluated in two parts. -/
theorem evaluateAll_append (before after : List (Node ω)) :
    evaluateAll env (before ++ after) =
      (evaluateAll env before).andThen fun values middle =>
        (evaluateAll middle after).andThen fun more last => .done last (values ++ more) := by
  induction before generalizing env with
  | nil => simp
  | cons n before ih =>
    simp only [List.cons_append, evaluateAll_cons, Run.andThen_assoc, Run.done_andThen, ih]

end Cases

/-! ## 5. Run by run -/

section Runs

variable [Operation ω] {env after : Environment ω} {log : List (Event ω)}

/-- A name has the value it is bound to. -/
theorem evaluate_of_bound {name : String} {value : Node ω} (h : env.get? name = some value)
    (s : Span) : evaluate env (.symbol name s) = .done env value := by
  rw [evaluate_symbol, env.lookup_of_bound h]
  rfl

theorem evaluate_of_unbound {name : String} (h : env.get? name = none) (s : Span) :
    evaluate env (.symbol name s) = .fail env (.unbound name s) := by
  rw [evaluate_symbol, env.lookup_of_unbound h]
  rfl

section Definitions

variable {head : Node ω} (hhead : head.isDefine = true) {expression : Node ω}
include hhead

/-- A definition binds the value of its expression, behind all that the expression has done. -/
theorem evaluate_define_of_ok {value : Node ω} (h : evaluate env expression = ⟨.ok value, after, log⟩)
    (name : String) (t s : Span) :
    evaluate env (.list [head, .symbol name t, expression] s) =
      ⟨.ok value, after.define name value, log ++ [.defined name value]⟩ := by
  rw [evaluate_define env hhead, h]
  rfl

/-- A definition whose expression fails does what the expression does, and no more. -/
theorem evaluate_define_of_error {cause : EvalError ω}
    (h : evaluate env expression = ⟨.error cause, after, log⟩) (name : String) (t s : Span) :
    evaluate env (.list [head, .symbol name t, expression] s) = ⟨.error cause, after, log⟩ := by
  rw [evaluate_define env hhead, h]
  rfl

end Definitions

section Calls

variable {head : Node ω} (hhead : head.isDefine = false)
include hhead

/-- Where the head stands for no procedure, nothing is done. -/
theorem evaluate_call_of_head_error {cause : EvalError ω} (hp : env.resolve head = .error cause)
    (operands : List (Node ω)) (s : Span) :
    evaluate env (.list (head :: operands) s) = .fail env cause := by
  rw [evaluate_call env hhead, hp]

variable {p : Procedure ω} (hp : env.resolve head = .ok p) {operands : List (Node ω)}
include hp

/-- A call leaves what its operands leave, **whether the procedure takes them or refuses them**, and
    is logged last. -/
theorem evaluate_call_of_ok {args : List (Node ω)}
    (h : evaluateAll env operands = ⟨.ok args, after, log⟩) (s : Span) :
    evaluate env (.list (head :: operands) s) =
      ⟨p.apply args s, after, log ++ [.called p.name args.length]⟩ := by
  rw [evaluate_call env hhead, hp]
  show (evaluateAll env operands).andThen _ = _
  rw [h]
  rfl

/-- A call whose operands fail does what they do, and no more. -/
theorem evaluate_call_of_error {cause : EvalError ω}
    (h : evaluateAll env operands = ⟨.error cause, after, log⟩) (s : Span) :
    evaluate env (.list (head :: operands) s) = ⟨.error cause, after, log⟩ := by
  rw [evaluate_call env hhead, hp]
  show (evaluateAll env operands).andThen _ = _
  rw [h]
  rfl

end Calls

section Operands

variable {n : Node ω} {rest : List (Node ω)}

/-- An operand with a value, and others with values behind it. -/
theorem evaluateAll_cons_of_ok {value : Node ω} (h : evaluate env n = ⟨.ok value, after, log⟩)
    {values : List (Node ω)} {last : Environment ω} {more : List (Event ω)}
    (hrest : evaluateAll after rest = ⟨.ok values, last, more⟩) :
    evaluateAll env (n :: rest) = ⟨.ok (value.withSpan n.span :: values), last, log ++ more⟩ := by
  rw [evaluateAll_cons, h]
  show Run.mk _ _ _ = _
  simp only [hrest, Run.andThen, Run.done, List.append_nil]

/-- An operand with a value, and one behind it that fails. -/
theorem evaluateAll_cons_of_rest_error {value : Node ω}
    (h : evaluate env n = ⟨.ok value, after, log⟩) {cause : EvalError ω} {last : Environment ω}
    {more : List (Event ω)} (hrest : evaluateAll after rest = ⟨.error cause, last, more⟩) :
    evaluateAll env (n :: rest) = ⟨.error cause, last, log ++ more⟩ := by
  rw [evaluateAll_cons, h]
  show Run.mk _ _ _ = _
  simp only [hrest, Run.andThen]

/-- Behind an operand that fails none is evaluated. -/
theorem evaluateAll_cons_of_error {cause : EvalError ω}
    (h : evaluate env n = ⟨.error cause, after, log⟩) :
    evaluateAll env (n :: rest) = ⟨.error cause, after, log⟩ := by
  rw [evaluateAll_cons, h]
  rfl

end Operands

end Runs

end MiniLisp
