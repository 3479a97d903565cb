import Mathlib.Logic.Equiv.Basic
import MiniLisp.Proofs.Semantics

/-!
# Renaming: names mean what they are bound to

A program may be written with other names, as long as names that differ are kept apart and definitions
stay definitions. This file fixes that an evaluation cannot tell:

* `Renaming`: other names for all names. `Renaming.swap` exchanges two of them;
* `Node.rename`, `EvalError.rename`, `Event.rename`, `Environment.rename`: the same with the other names,
  also in what is quoted or bound. Places and numbers stay, and procedures are shown as they were;
* `Environment.get?_rename`, `Environment.rename_define`: under its other name, a name has its value with
  the other names, and a new binding changes nothing about that;
* `Run.rename`, `Run.rename_andThen`: **runs that are renamed step by step are renamed together**;
* `Procedure.IgnoresNames`: a procedure for which no name is special. None is for the built-in ones
  (`Procedure.ignoresNames_binary`, `Procedure.ignoresNames_sequence`);
* `evaluate_rename`: if none is for any procedure, none is for an evaluation;
* **`evaluation_ignores_names`**: the result, for programs without a host.
-/

namespace MiniLisp

variable {ω : Type}

/-! ## 1. Other names -/

/-- Other names for all names. Names that differ are kept apart, and definitions stay definitions. -/
structure Renaming where
  toFun : String → String
  injective : Function.Injective toFun
  defineWord_eq : toFun defineWord = defineWord

namespace Renaming

instance : CoeFun Renaming fun _ => String → String := ⟨toFun⟩

variable (r : Renaming)

theorem eq_iff {a b : String} : r a = r b ↔ a = b := r.injective.eq_iff

@[simp] theorem apply_defineWord : r defineWord = defineWord := r.defineWord_eq

/-- No other name becomes the word for definitions. -/
theorem apply_eq_defineWord {name : String} : r name = defineWord ↔ name = defineWord := by
  have h := r.eq_iff (a := name) (b := defineWord)
  rwa [r.apply_defineWord] at h

/-- The two names exchanged. -/
def swap (a b : String) (ha : defineWord ≠ a) (hb : defineWord ≠ b) : Renaming where
  toFun := Equiv.swap a b
  injective := (Equiv.swap a b).injective
  defineWord_eq := Equiv.swap_apply_of_ne_of_ne ha hb

end Renaming

variable (r : Renaming)

namespace Node

mutual

/-- The node with the other names. -/
def rename : Node ω → Node ω
  | symbol name s => symbol (r name) s
  | number x s => number x s
  | list items s => list (renameAll items) s
  | procedure p s => procedure p s

/-- The nodes with the other names. -/
def renameAll : List (Node ω) → List (Node ω)
  | [] => []
  | n :: rest => n.rename :: renameAll rest

end

@[simp] theorem renameAll_eq_map (ns : List (Node ω)) : renameAll r ns = ns.map (rename r) := by
  induction ns with
  | nil => rfl
  | cons n rest ih => rw [renameAll, ih, List.map_cons]

@[simp] theorem rename_symbol (name : String) (s : Span) :
    (symbol name s : Node ω).rename r = symbol (r name) s := by
  rw [rename]

@[simp] theorem rename_number (x : Float) (s : Span) :
    (number x s : Node ω).rename r = number x s := by
  rw [rename]

@[simp] theorem rename_procedure (p : Procedure ω) (s : Span) :
    (procedure p s).rename r = procedure p s := by
  rw [rename]

@[simp] theorem rename_list (items : List (Node ω)) (s : Span) :
    (list items s).rename r = list (items.map (rename r)) s := by
  rw [rename, renameAll_eq_map]

@[simp] theorem kind_rename (n : Node ω) : (n.rename r).kind = n.kind := by
  cases n <;> rfl

@[simp] theorem span_rename (n : Node ω) : (n.rename r).span = n.span := by
  cases n <;> rfl

@[simp] theorem rename_withSpan (s : Span) (n : Node ω) :
    (n.withSpan s).rename r = (n.rename r).withSpan s := by
  cases n <;> rfl

@[simp] theorem rename_unplaced (n : Node ω) : n.unplaced.rename r = (n.rename r).unplaced :=
  rename_withSpan r _ n

/-- A list is a definition under the other names if it is one. -/
@[simp] theorem isDefine_rename (n : Node ω) : (n.rename r).isDefine = n.isDefine := by
  cases n with
  | symbol name s =>
    rw [rename_symbol, Bool.eq_iff_iff]
    simp only [isDefine, beq_iff_eq, r.apply_eq_defineWord]
  | number x s => rfl
  | list items s => rfl
  | procedure p s => rfl

end Node

/-- The error with the other names, also in what it quotes. -/
def EvalError.rename : EvalError ω → EvalError ω
  | unbound name span => .unbound (r name) span
  | notAProcedure found span => .notAProcedure (found.rename r) span
  | invalidForm problem span => .invalidForm problem span
  | wrongArity procedure expected found span => .wrongArity procedure expected found span
  | typeMismatch expected found span => .typeMismatch expected (found.rename r) span

/-- The event with the other names. -/
def Event.rename : Event ω → Event ω
  | tokenized count => .tokenized count
  | called procedure arguments => .called procedure arguments
  | defined name value => .defined (r name) (value.rename r)

/-! ## 2. Environments -/

namespace Environment

/-- The environment with the other names, also in what they are bound to. -/
def rename (env : Environment ω) : Environment ω :=
  ⟨.ofList (env.toList.map fun (name, value) => (r name, value.rename r))⟩

variable (env : Environment ω)

/-- Names that are bound once are bound once under their other names. -/
theorem distinct_rename :
    (env.toList.map fun (name, value) => (r name, value.rename r)).Pairwise
      fun a b => ¬ compare a.1 b.1 = .eq := by
  refine List.pairwise_map.mpr (Std.ExtTreeMap.distinct_keys_toList.imp fun hne heq => hne ?_)
  exact Std.LawfulEqCmp.compare_eq_iff_eq.mpr (r.injective (Std.LawfulEqCmp.compare_eq_iff_eq.mp heq))

/-- Nothing is bound but what was bound before. -/
theorem get?_rename_of_forall {name : String}
    (h : ∀ other, (env.get? other).isSome = true → r other ≠ name) :
    (env.rename r).get? name = none := by
  refine Std.ExtTreeMap.getElem?_ofList_of_contains_eq_false (Bool.eq_false_iff.mpr fun hmem => ?_)
  rw [List.contains_iff_mem, List.map_map] at hmem
  obtain ⟨⟨other, value⟩, hother, rfl⟩ := List.mem_map.mp hmem
  have hget : env.get? other = some value := Std.ExtTreeMap.mem_toList_iff_getElem?_eq_some.mp hother
  exact h other (Option.isSome_of_mem hget) rfl

/-- **Under its other name, a name has its value**, with the other names. -/
theorem get?_rename (name : String) :
    (env.rename r).get? (r name) = (env.get? name).map (Node.rename r) := by
  cases hget : env.get? name with
  | none =>
    refine get?_rename_of_forall r env fun other hother heq => ?_
    rw [r.injective heq, hget] at hother
    cases hother
  | some value =>
    have hmem : (name, value) ∈ env.toList := Std.ExtTreeMap.mem_toList_iff_getElem?_eq_some.mpr hget
    exact Std.ExtTreeMap.getElem?_ofList_of_mem Std.ReflCmp.compare_self (env.distinct_rename r)
      (List.mem_map_of_mem hmem)

/-- A name exchanged for a built-in one has the built-in value. -/
example (span : Span) :
    let r := Renaming.swap "r" "pi" (by decide) (by decide)
    ((standard : Environment Empty).rename r).lookup "r" span = .ok (.number pi Span.nowhere) := by
  intro r
  have hpi : r "pi" = "r" := Equiv.swap_apply_right "r" "pi"
  rw [← hpi, lookup, get?_rename]
  rfl

/-- It is one whether a name is bound before the names are replaced or after. -/
theorem rename_define (name : String) (value : Node ω) :
    (env.define name value).rename r = (env.rename r).define (r name) (value.rename r) := by
  refine ext_get? fun other => ?_
  by_cases h : ∃ source, r source = other
  · obtain ⟨source, rfl⟩ := h
    rw [get?_rename, get?_define, get?_define, get?_rename]
    by_cases heq : name = source
    · rw [if_pos heq, if_pos (congrArg r heq), Option.map_some]
    · rw [if_neg heq, if_neg fun hr => heq (r.injective hr)]
  · have hother : ∀ source, r source ≠ other := fun source heq => h ⟨source, heq⟩
    rw [get?_define_of_ne (hother name), get?_rename_of_forall r env fun source _ => hother source]
    exact get?_rename_of_forall r _ fun source _ => hother source

end Environment

/-! ## 3. Runs -/

namespace Run

variable {α β : Type}

/-- The run with the other names; `f` is what they make of its value. -/
def rename (f : α → β) (run : Run ω (EvalError ω) α) : Run ω (EvalError ω) β where
  outcome := (run.outcome.map f).mapError (EvalError.rename r)
  env := run.env.rename r
  log := run.log.map (Event.rename r)

@[simp] theorem rename_done (f : α → β) (env : Environment ω) (value : α) :
    (done env value).rename r f = done (env.rename r) (f value) := rfl

@[simp] theorem rename_note (f : α → β) (event : Event ω) (run : Run ω (EvalError ω) α) :
    (run.note event).rename r f = (run.rename r f).note (event.rename r) := rfl

/-- **Runs that are renamed step by step are renamed together.** -/
theorem rename_andThen {γ δ : Type} {f : α → γ} {g : β → δ} (run : Run ω (EvalError ω) α)
    {next : α → Environment ω → Run ω (EvalError ω) β}
    {other : γ → Environment ω → Run ω (EvalError ω) δ}
    (h : ∀ value env, (next value env).rename r g = other (f value) (env.rename r)) :
    (run.andThen next).rename r g = (run.rename r f).andThen other := by
  obtain ⟨outcome, env, log⟩ := run
  cases outcome with
  | error cause => rfl
  | ok value =>
    show (⟨_, _, log ++ (next value env).log⟩ : Run ω (EvalError ω) β).rename r g =
      ⟨(other (f value) (env.rename r)).outcome, (other (f value) (env.rename r)).env,
        log.map (Event.rename r) ++ (other (f value) (env.rename r)).log⟩
    rw [← h value env, rename, List.map_append]
    rfl

end Run

/-! ## 4. Procedures and heads -/

namespace Procedure

/-- What the procedure makes of arguments with the other names is what it makes of them, with the other
    names. -/
def IgnoresNames [Operation ω] (p : Procedure ω) : Prop :=
  ∀ (args : List (Node ω)) (span : Span),
    p.apply (args.map (Node.rename r)) span =
      ((p.apply args span).map (Node.rename r)).mapError (EvalError.rename r)

variable [Operation ω]

theorem ignoresNames_binary (f : Float → Float → Float) (name : String) :
    (binary f name : Procedure ω).IgnoresNames r := by
  intro args span
  have happlies := applies_apply (binary f name : Procedure ω) args span
  generalize (binary f name : Procedure ω).apply args span = outcome at happlies
  cases happlies with
  | numbers _ _ x y s t _ => rfl
  | count _ _ _ _ hlen =>
    rw [apply_binary_count f name (by rwa [List.length_map]), List.length_map]
    rfl
  | left _ _ a b _ hkind =>
    rw [List.map_cons, List.map_singleton, apply_binary_left f name (by rwa [Node.kind_rename]),
      ← Node.rename_unplaced, Node.span_rename]
    rfl
  | right _ _ x s b _ hkind =>
    rw [List.map_cons, List.map_singleton, Node.rename_number,
      apply_binary_right f name x s (by rwa [Node.kind_rename]), ← Node.rename_unplaced,
      Node.span_rename]
    rfl

theorem ignoresNames_sequence (name : String) :
    (variadic .sequence name : Procedure ω).IgnoresNames r := by
  intro args span
  rcases List.eq_nil_or_concat args with rfl | ⟨before, value, rfl⟩
  · rfl
  · rw [List.concat_eq_append, List.map_append, List.map_singleton, apply_sequence_concat,
      apply_sequence_concat]
    rfl

/-- All procedures ignore names as soon as those of the host do. -/
theorem ignoresNames_of_hosts
    (hosts : ∀ (f : ω) (name : String), (variadic (.host f) name : Procedure ω).IgnoresNames r)
    (p : Procedure ω) : p.IgnoresNames r := by
  cases p with
  | binary f name => exact ignoresNames_binary r f name
  | variadic operation name =>
    cases operation with
    | sequence => exact ignoresNames_sequence r name
    | host f => exact hosts f name

end Procedure

namespace Environment

variable (env : Environment ω)

theorem lookup_rename (name : String) (span : Span) :
    (env.rename r).lookup (r name) span =
      ((env.lookup name span).map (Node.rename r)).mapError (EvalError.rename r) := by
  rw [lookup, lookup, get?_rename]
  cases env.get? name with
  | none => rfl
  | some value => rfl

/-- A head stands for the same procedure under the other names, or is refused with them. -/
theorem resolve_rename (head : Node ω) :
    (env.rename r).resolve (head.rename r) = (env.resolve head).mapError (EvalError.rename r) := by
  cases head with
  | number x s => rfl
  | procedure p s => rfl
  | list items s =>
    simp only [resolve, Except.mapError, EvalError.rename, Node.rename_unplaced, Node.rename_list,
      Node.span]
  | symbol name s =>
    simp only [Node.rename_symbol, resolve, lookup_rename]
    cases env.lookup name s with
    | error cause => rfl
    | ok value =>
      cases value with
      | symbol other t => rfl
      | number x t => rfl
      | list items t => rfl
      | procedure p t => rfl

end Environment

/-! ## 5. Evaluations -/

section Evaluating

variable [Operation ω] {r}

/-- Where every single operand is evaluated with the other names, all of them together are. -/
theorem evaluateAll_rename_of_forall {operands : List (Node ω)}
    (ih : ∀ n ∈ operands, ∀ env : Environment ω,
      evaluate (env.rename r) (n.rename r) = (evaluate env n).rename r (Node.rename r))
    (env : Environment ω) :
    evaluateAll (env.rename r) (operands.map (Node.rename r)) =
      (evaluateAll env operands).rename r (List.map (Node.rename r)) := by
  induction operands generalizing env with
  | nil => rw [List.map_nil, evaluateAll_nil, evaluateAll_nil, Run.rename_done, List.map_nil]
  | cons n rest ihrest =>
    obtain ⟨hfirst, hrest⟩ := List.forall_mem_cons.mp ih
    rw [List.map_cons, evaluateAll_cons, evaluateAll_cons, hfirst env]
    refine (Run.rename_andThen r _ fun value after => ?_).symm
    rw [ihrest hrest after]
    refine Run.rename_andThen r _ fun values last => ?_
    rw [Run.rename_done, List.map_cons, Node.rename_withSpan, Node.span_rename]

/-- **An evaluation with other names is the evaluation, with the other names.** -/
theorem evaluate_rename (hall : ∀ p : Procedure ω, p.IgnoresNames r) (env : Environment ω)
    (n : Node ω) :
    evaluate (env.rename r) (n.rename r) = (evaluate env n).rename r (Node.rename r) := by
  induction n using Node.formInduction generalizing env with
  | symbol name s =>
    rw [Node.rename_symbol, evaluate_symbol, evaluate_symbol, Environment.lookup_rename]
    rfl
  | number x s =>
    rw [Node.rename_number, evaluate_number, evaluate_number, Run.rename_done, Node.rename_number]
  | procedure p s =>
    rw [Node.rename_procedure, evaluate_procedure, evaluate_procedure, Run.rename_done,
      Node.rename_procedure]
  | empty s =>
    rw [Node.rename_list, List.map_nil, evaluate_nil, evaluate_nil]
    rfl
  | count t operands s hlen =>
    rw [Node.rename_list, List.map_cons, Node.rename_symbol, r.apply_defineWord,
      evaluate_define_count _ rfl hlen, evaluate_define_count _ rfl (by rwa [List.length_map]),
      List.length_map]
    rfl
  | target t place expression s hkind =>
    rw [Node.rename_list, List.map_cons, Node.rename_symbol, r.apply_defineWord, List.map_cons,
      List.map_singleton, evaluate_define_target _ rfl hkind,
      evaluate_define_target _ rfl (by rwa [Node.kind_rename]), Node.kind_rename, Node.span_rename]
    rfl
  | define t name u expression s ih =>
    rw [Node.rename_list, List.map_cons, Node.rename_symbol, r.apply_defineWord, List.map_cons,
      Node.rename_symbol, List.map_singleton, evaluate_define _ rfl, evaluate_define _ rfl, ih env]
    refine (Run.rename_andThen r _ fun value after => ?_).symm
    rw [Environment.bind, Environment.bind, Run.rename_note, Run.rename_done,
      Environment.rename_define]
    rfl
  | call head operands s hcall ih =>
    have hcall' : (head.rename r).isDefine = false := by rw [Node.isDefine_rename, hcall]
    rw [Node.rename_list, List.map_cons, evaluate_call _ hcall, evaluate_call _ hcall',
      Environment.resolve_rename]
    cases env.resolve head with
    | error cause => rfl
    | ok p =>
      show (evaluateAll (env.rename r) (operands.map (Node.rename r))).andThen _ = _
      rw [evaluateAll_rename_of_forall ih env]
      refine (Run.rename_andThen r _ fun args after => ?_).symm
      rw [Procedure.call, Procedure.call, Run.rename_note, hall p, List.length_map]
      rfl

end Evaluating

/-- **Names mean what they are bound to.** An expression with other names, evaluated in the environment
    with the other names, has the same value or fails with the same error, leaves the same environment and
    logs the same events, all of it with the other names. Nothing but the word for definitions means
    something by itself. -/
theorem evaluation_ignores_names (r : Renaming) (env : Environment Empty) (n : Node Empty) :
    evaluate (env.rename r) (n.rename r) = (evaluate env n).rename r (Node.rename r) :=
  evaluate_rename (Procedure.ignoresNames_of_hosts r nofun) env n

end MiniLisp
