import MiniLisp.Proofs.Semantics
import MiniLisp.Session

/-!
# Places: where something stands has no meaning

The same form may stand at two places, and the same values may have been made at others. This file fixes
that an evaluation cannot tell:

* `Node.Alike`, `Environment.Alike`: equal but for places. Names, numbers and procedures are the same;
* `EvalError.bare`, `Event.bare`: errors and events without places, those of quoted values included;
* `AlikeOutcomes`, `Run.Alike`: two runs that differ in places alone, whatever they come to. **Runs that
  are alike step by step are alike together** (`Run.Alike.andThen`);
* `Procedure.IgnoresPlaces`: a procedure that cannot tell either. The built-in ones cannot
  (`Procedure.ignoresPlaces_binary`, `Procedure.ignoresPlaces_sequence`);
* `evaluate_alike`: if no procedure can, no evaluation can; one step of the evaluator keeps runs alike,
  and so does the whole of it, of one form or of several (`evaluateForms_alike`);
* **`evaluation_ignores_places`**: the result, together with the built-in procedures.
-/

namespace MiniLisp

variable {ω : Type}

/-! ## 1. Equal but for places -/

namespace Node

/-- The nodes differ in places alone. -/
def Alike (m n : Node ω) : Prop := m.bare = n.bare

/-- So do the nodes of two lists, one by one. -/
def AlikeAll (ms ns : List (Node ω)) : Prop := ms.map bare = ns.map bare

/-- So do the nodes that there are, if there are any. -/
def AlikeIfAny (m n : Option (Node ω)) : Prop := m.map bare = n.map bare

theorem bare_list (items : List (Node ω)) (s : Span) :
    (list items s).bare = list (items.map bare) Span.nowhere := by
  rw [bare, bares_eq_map]

@[simp] theorem bare_withSpan (s : Span) (n : Node ω) : (n.withSpan s).bare = n.bare := by
  cases n <;> rfl

@[simp] theorem kind_bare (n : Node ω) : n.bare.kind = n.kind := by
  cases n <;> rfl

@[simp] theorem isDefine_bare (n : Node ω) : n.bare.isDefine = n.isDefine := by
  cases n <;> rfl

theorem Alike.withSpan {m n : Node ω} (h : m.Alike n) (s t : Span) :
    (m.withSpan s).Alike (n.withSpan t) := by
  rw [Alike, bare_withSpan, bare_withSpan]
  exact h

theorem Alike.unplaced {m n : Node ω} (h : m.Alike n) : m.unplaced.Alike n.unplaced :=
  h.withSpan _ _

theorem Alike.kind_eq {m n : Node ω} (h : m.Alike n) : m.kind = n.kind := by
  rw [← kind_bare m, h, kind_bare]

theorem Alike.isDefine_eq {m n : Node ω} (h : m.Alike n) : m.isDefine = n.isDefine := by
  rw [← isDefine_bare m, h, isDefine_bare]

theorem Alike.exists_symbol {name : String} {s : Span} {n : Node ω} (h : (symbol name s).Alike n) :
    ∃ t, n = symbol name t := by
  cases n <;> cases h
  exact ⟨_, rfl⟩

theorem Alike.exists_number {x : Float} {s : Span} {n : Node ω} (h : (number x s).Alike n) :
    ∃ t, n = number x t := by
  cases n <;> cases h
  exact ⟨_, rfl⟩

theorem Alike.exists_procedure {p : Procedure ω} {s : Span} {n : Node ω}
    (h : (procedure p s).Alike n) : ∃ t, n = procedure p t := by
  cases n <;> cases h
  exact ⟨_, rfl⟩

theorem Alike.exists_list {items : List (Node ω)} {s : Span} {n : Node ω}
    (h : (list items s).Alike n) : ∃ others t, n = list others t ∧ AlikeAll items others := by
  cases n with
  | symbol name t => cases h
  | number x t => cases h
  | procedure p t => cases h
  | list others t =>
    rw [Alike, bare_list, bare_list] at h
    exact ⟨others, t, rfl, (Node.list.inj h).1⟩

theorem AlikeAll.length_eq {ms ns : List (Node ω)} (h : AlikeAll ms ns) : ms.length = ns.length := by
  have := congrArg List.length h
  rwa [List.length_map, List.length_map] at this

theorem alikeAll_cons {m n : Node ω} {ms ns : List (Node ω)} :
    AlikeAll (m :: ms) (n :: ns) ↔ m.Alike n ∧ AlikeAll ms ns := by
  rw [AlikeAll, List.map_cons, List.map_cons, List.cons.injEq]
  rfl

theorem AlikeAll.exists_cons {m : Node ω} {ms ns : List (Node ω)} (h : AlikeAll (m :: ms) ns) :
    ∃ n rest, ns = n :: rest ∧ m.Alike n ∧ AlikeAll ms rest := by
  obtain ⟨n, rest, rfl, hn, hrest⟩ := List.map_eq_cons_iff.mp h.symm
  exact ⟨n, rest, rfl, hn.symm, hrest.symm⟩

theorem AlikeAll.exists_concat {m : Node ω} {ms ns : List (Node ω)} (h : AlikeAll (ms ++ [m]) ns) :
    ∃ front n, ns = front ++ [n] ∧ m.Alike n := by
  rw [AlikeAll, List.map_append, List.map_singleton] at h
  obtain ⟨front, back, rfl, _, hback⟩ := List.map_eq_append_iff.mp h.symm
  obtain ⟨n, rfl, hn⟩ := List.map_eq_singleton_iff.mp hback
  exact ⟨front, n, rfl, hn.symm⟩

theorem AlikeAll.append {ms ns more others : List (Node ω)} (h : AlikeAll ms ns)
    (hmore : AlikeAll more others) : AlikeAll (ms ++ more) (ns ++ others) := by
  rw [AlikeAll, List.map_append, List.map_append, h, hmore]

theorem AlikeAll.eq_nil {ns : List (Node ω)} (h : AlikeAll [] ns) : ns = [] :=
  List.map_eq_nil_iff.mp h.symm

end Node

/-- The same names are bound, to nodes that are alike. -/
def Environment.Alike (a b : Environment ω) : Prop :=
  ∀ name, (a.get? name).map Node.bare = (b.get? name).map Node.bare

theorem Environment.Alike.define {a b : Environment ω} (h : a.Alike b) (name : String) {m n : Node ω}
    (hmn : m.Alike n) : (a.define name m).Alike (b.define name n) := by
  intro other
  rw [get?_define, get?_define]
  split
  · exact congrArg some hmn
  · exact h other

/-! ## 2. Runs -/

/-- An error without places. -/
def EvalError.bare : EvalError ω → EvalError ω
  | unbound name _ => .unbound name Span.nowhere
  | notAProcedure found _ => .notAProcedure found.bare Span.nowhere
  | invalidForm problem _ => .invalidForm problem Span.nowhere
  | wrongArity procedure expected found _ => .wrongArity procedure expected found Span.nowhere
  | typeMismatch expected found _ => .typeMismatch expected found.bare Span.nowhere

/-- An event without places. -/
def Event.bare : Event ω → Event ω
  | tokenized count => .tokenized count
  | called procedure arguments => .called procedure arguments
  | defined name value => .defined name value.bare

/-- Two values that correspond to each other, or the same error, at two places. -/
inductive AlikeOutcomes {α : Type} (same : α → α → Prop) :
    Except (EvalError ω) α → Except (EvalError ω) α → Prop
  | ok {a b : α} (h : same a b) : AlikeOutcomes same (.ok a) (.ok b)
  | error {c d : EvalError ω} (h : c.bare = d.bare) : AlikeOutcomes same (.error c) (.error d)

namespace Run

variable {α β : Type} {same : α → α → Prop} {same' : β → β → Prop}

/-- The runs come to the same, leave the same and log the same, but for places. -/
structure Alike (same : α → α → Prop) (r s : Run ω (EvalError ω) α) : Prop where
  outcome : AlikeOutcomes same r.outcome s.outcome
  env : r.env.Alike s.env
  log : r.log.map Event.bare = s.log.map Event.bare

theorem alike_ofOutcome {a b : Environment ω} (h : a.Alike b) {o u : Except (EvalError ω) α}
    (hou : AlikeOutcomes same o u) : (ofOutcome a o).Alike same (ofOutcome b u) :=
  ⟨hou, h, rfl⟩

theorem alike_done {a b : Environment ω} (h : a.Alike b) {v w : α} (hvw : same v w) :
    (done a v).Alike same (done b w) := ⟨.ok hvw, h, rfl⟩

theorem alike_fail {a b : Environment ω} (h : a.Alike b) {c d : EvalError ω} (hcd : c.bare = d.bare) :
    (fail a c).Alike same (fail b d) := ⟨.error hcd, h, rfl⟩

theorem Alike.note {r s : Run ω (EvalError ω) α} (h : r.Alike same s) {e f : Event ω}
    (hef : e.bare = f.bare) : (r.note e).Alike same (s.note f) := by
  refine ⟨h.outcome, h.env, ?_⟩
  show (e :: r.log).map Event.bare = (f :: s.log).map Event.bare
  rw [List.map_cons, List.map_cons, hef, h.log]

/-- **Runs that are alike step by step are alike together.** -/
theorem Alike.andThen {r s : Run ω (EvalError ω) α} (h : r.Alike same s)
    {next other : α → Environment ω → Run ω (EvalError ω) β}
    (hnext : ∀ v w a b, same v w → a.Alike b → (next v a).Alike same' (other w b)) :
    (r.andThen next).Alike same' (s.andThen other) := by
  obtain ⟨outcome, a, log⟩ := r
  obtain ⟨outcome', b, log'⟩ := s
  obtain ⟨houtcome, henv, hlog⟩ := h
  cases houtcome with
  | error hcause => exact ⟨.error hcause, henv, hlog⟩
  | @ok v w hvalue =>
    have hrest := hnext v w a b hvalue henv
    refine ⟨hrest.outcome, hrest.env, ?_⟩
    show (log ++ (next v a).log).map Event.bare = (log' ++ (other w b).log).map Event.bare
    have hlog : log.map Event.bare = log'.map Event.bare := hlog
    rw [List.map_append, List.map_append, hlog, hrest.log]

end Run

/-! ## 3. Procedures and heads -/

namespace Procedure

/-- The procedure makes the same of arguments that are alike, wherever it is called. -/
def IgnoresPlaces [Operation ω] (p : Procedure ω) : Prop :=
  ∀ (args others : List (Node ω)) (s t : Span), Node.AlikeAll args others →
    AlikeOutcomes Node.Alike (p.apply args s) (p.apply others t)

variable [Operation ω]

theorem ignoresPlaces_binary (f : Float → Float → Float) (name : String) :
    (binary f name : Procedure ω).IgnoresPlaces := by
  intro args others s t h
  have happlies := applies_apply (binary f name : Procedure ω) args s
  generalize (binary f name : Procedure ω).apply args s = outcome at happlies
  cases happlies with
  | numbers _ _ x y =>
    obtain ⟨_, _, rfl, ha, h⟩ := h.exists_cons
    obtain ⟨_, _, rfl, hb, h⟩ := h.exists_cons
    obtain rfl := h.eq_nil
    obtain ⟨_, rfl⟩ := ha.exists_number
    obtain ⟨_, rfl⟩ := hb.exists_number
    exact .ok rfl
  | count _ _ _ _ hlen =>
    rw [apply_binary_count f name (h.length_eq ▸ hlen) t, h.length_eq]
    exact .error rfl
  | left _ _ a b _ hkind =>
    obtain ⟨a', _, rfl, ha, h⟩ := h.exists_cons
    obtain ⟨b', _, rfl, _, h⟩ := h.exists_cons
    obtain rfl := h.eq_nil
    rw [apply_binary_left f name (ha.kind_eq ▸ hkind) b' t]
    exact .error (congrArg (EvalError.typeMismatch .number · Span.nowhere) ha.unplaced)
  | right _ _ x _ b _ hkind =>
    obtain ⟨_, _, rfl, ha, h⟩ := h.exists_cons
    obtain ⟨b', _, rfl, hb, h⟩ := h.exists_cons
    obtain rfl := h.eq_nil
    obtain ⟨_, rfl⟩ := ha.exists_number
    rw [apply_binary_right f name x _ (hb.kind_eq ▸ hkind) t]
    exact .error (congrArg (EvalError.typeMismatch .number · Span.nowhere) hb.unplaced)

theorem ignoresPlaces_sequence (name : String) :
    (variadic .sequence name : Procedure ω).IgnoresPlaces := by
  intro args others s t h
  rcases List.eq_nil_or_concat args with rfl | ⟨before, value, rfl⟩
  · obtain rfl := h.eq_nil
    exact .error rfl
  · rw [List.concat_eq_append] at h ⊢
    obtain ⟨front, value', rfl, hvalue⟩ := h.exists_concat
    rw [apply_sequence_concat, apply_sequence_concat]
    exact .ok hvalue

/-- All procedures ignore places as soon as those of the host do. -/
theorem ignoresPlaces_of_hosts
    (hosts : ∀ (f : ω) (name : String), (variadic (.host f) name : Procedure ω).IgnoresPlaces)
    (p : Procedure ω) : p.IgnoresPlaces := by
  cases p with
  | binary f name => exact ignoresPlaces_binary f name
  | variadic operation name =>
    cases operation with
    | sequence => exact ignoresPlaces_sequence name
    | host f => exact hosts f name

end Procedure

theorem Environment.Alike.lookup {a b : Environment ω} (h : a.Alike b) (name : String) (s t : Span) :
    AlikeOutcomes Node.Alike (a.lookup name s) (b.lookup name t) := by
  have hget := h name
  unfold Environment.lookup
  cases ha : a.get? name with
  | none =>
    rw [ha] at hget
    rw [Option.map_eq_none_iff.mp hget.symm]
    exact .error rfl
  | some v =>
    rw [ha] at hget
    obtain ⟨w, hb, hw⟩ := Option.map_eq_some_iff.mp hget.symm
    rw [hb]
    exact .ok hw.symm

/-- Heads that are alike stand for the same procedure, or are refused alike. -/
theorem Environment.Alike.resolve {a b : Environment ω} (h : a.Alike b) {head other : Node ω}
    (hhead : head.Alike other) : AlikeOutcomes Eq (a.resolve head) (b.resolve other) := by
  cases head with
  | number x s =>
    obtain ⟨t, rfl⟩ := hhead.exists_number
    exact .error rfl
  | procedure p s =>
    obtain ⟨t, rfl⟩ := hhead.exists_procedure
    exact .ok rfl
  | list items s =>
    obtain ⟨others, t, rfl, _⟩ := hhead.exists_list
    exact .error (congrArg (EvalError.notAProcedure · Span.nowhere) hhead.unplaced)
  | symbol name s =>
    obtain ⟨t, rfl⟩ := hhead.exists_symbol
    have hfound := h.lookup name s t
    simp only [Environment.resolve]
    generalize a.lookup name s = found at hfound ⊢
    generalize b.lookup name t = found' at hfound ⊢
    cases hfound with
    | error hcause => exact .error hcause
    | @ok v w hvw =>
      cases v with
      | procedure p u =>
        obtain ⟨_, rfl⟩ := hvw.exists_procedure
        exact .ok rfl
      | symbol other u =>
        obtain ⟨_, rfl⟩ := hvw.exists_symbol
        exact .error rfl
      | number x u =>
        obtain ⟨_, rfl⟩ := hvw.exists_number
        exact .error rfl
      | list items u =>
        obtain ⟨_, _, rfl, _⟩ := hvw.exists_list
        exact .error (congrArg (EvalError.notAProcedure · Span.nowhere) hvw.unplaced)

/-! ## 4. Evaluations -/

section Evaluating

variable [Operation ω]

/-- Where every single operand is evaluated alike, all of them together are. -/
theorem evaluateAll_alike_of_forall {operands others : List (Node ω)}
    (hoperands : Node.AlikeAll operands others)
    (ih : ∀ n ∈ operands, ∀ {m : Node ω}, n.Alike m → ∀ {a b : Environment ω}, a.Alike b →
      (evaluate a n).Alike Node.Alike (evaluate b m))
    {a b : Environment ω} (h : a.Alike b) :
    (evaluateAll a operands).Alike Node.AlikeAll (evaluateAll b others) := by
  induction operands generalizing others a b with
  | nil =>
    obtain rfl := hoperands.eq_nil
    rw [evaluateAll_nil, evaluateAll_nil]
    exact Run.alike_done h rfl
  | cons n rest ihrest =>
    obtain ⟨m, more, rfl, hn, hmore⟩ := hoperands.exists_cons
    obtain ⟨hfirst, hrest⟩ := List.forall_mem_cons.mp ih
    rw [evaluateAll_cons, evaluateAll_cons]
    refine (hfirst hn h).andThen fun v w _ _ hvw hafter => ?_
    refine (ihrest hmore hrest hafter).andThen fun vs ws _ _ hvws hlast => ?_
    exact Run.alike_done hlast (Node.alikeAll_cons.mpr ⟨hvw.withSpan _ _, hvws⟩)

/-- **Nodes that are alike are evaluated alike** in environments that are alike. -/
theorem evaluate_alike (hall : ∀ p : Procedure ω, p.IgnoresPlaces) {m n : Node ω} (hmn : m.Alike n)
    {a b : Environment ω} (h : a.Alike b) :
    (evaluate a m).Alike Node.Alike (evaluate b n) := by
  induction m using Node.formInduction generalizing n a b with
  | symbol name s =>
    obtain ⟨t, rfl⟩ := hmn.exists_symbol
    rw [evaluate_symbol, evaluate_symbol]
    exact Run.alike_ofOutcome h (h.lookup name s t)
  | number x s =>
    obtain ⟨t, rfl⟩ := hmn.exists_number
    rw [evaluate_number, evaluate_number]
    exact Run.alike_done h rfl
  | procedure p s =>
    obtain ⟨t, rfl⟩ := hmn.exists_procedure
    rw [evaluate_procedure, evaluate_procedure]
    exact Run.alike_done h rfl
  | empty s =>
    obtain ⟨_, t, rfl, hitems⟩ := hmn.exists_list
    obtain rfl := hitems.eq_nil
    rw [evaluate_nil, evaluate_nil]
    exact Run.alike_fail h rfl
  | count u operands s hlen =>
    obtain ⟨_, t, rfl, hitems⟩ := hmn.exists_list
    obtain ⟨head', operands', rfl, hhead, hoperands⟩ := hitems.exists_cons
    rw [evaluate_define_count a rfl hlen,
      evaluate_define_count b hhead.isDefine_eq.symm (hoperands.length_eq ▸ hlen), hoperands.length_eq]
    exact Run.alike_fail h rfl
  | target u place expression s hkind =>
    obtain ⟨_, t, rfl, hitems⟩ := hmn.exists_list
    obtain ⟨head', _, rfl, hhead, hoperands⟩ := hitems.exists_cons
    obtain ⟨place', _, rfl, hplace, hoperands⟩ := hoperands.exists_cons
    obtain ⟨expression', _, rfl, _, hoperands⟩ := hoperands.exists_cons
    obtain rfl := hoperands.eq_nil
    rw [evaluate_define_target a rfl hkind,
      evaluate_define_target b hhead.isDefine_eq.symm (hplace.kind_eq ▸ hkind), hplace.kind_eq]
    exact Run.alike_fail h rfl
  | define u name v expression s ih =>
    obtain ⟨_, t, rfl, hitems⟩ := hmn.exists_list
    obtain ⟨head', _, rfl, hhead, hoperands⟩ := hitems.exists_cons
    obtain ⟨place', _, rfl, hplace, hoperands⟩ := hoperands.exists_cons
    obtain ⟨expression', _, rfl, hexpression, hoperands⟩ := hoperands.exists_cons
    obtain rfl := hoperands.eq_nil
    obtain ⟨v', rfl⟩ := hplace.exists_symbol
    rw [evaluate_define a rfl, evaluate_define b hhead.isDefine_eq.symm]
    refine (ih hexpression h).andThen fun v w _ _ hvw hafter => ?_
    have hevent : (Event.defined name v).bare = (Event.defined name w).bare :=
      congrArg (Event.defined name) hvw
    exact (Run.alike_done (hafter.define name hvw) hvw).note hevent
  | call head operands s hcall ih =>
    obtain ⟨_, t, rfl, hitems⟩ := hmn.exists_list
    obtain ⟨head', operands', rfl, hhead, hoperands⟩ := hitems.exists_cons
    rw [evaluate_call a hcall, evaluate_call b (hhead.isDefine_eq ▸ hcall)]
    have hresolve := h.resolve hhead
    generalize a.resolve head = found at hresolve ⊢
    generalize b.resolve head' = found' at hresolve ⊢
    cases hresolve with
    | error hcause => exact Run.alike_fail h hcause
    | @ok p q hpq =>
      subst hpq
      refine (evaluateAll_alike_of_forall hoperands ih h).andThen fun vs ws _ _ hvws hafter => ?_
      have hevent : (Event.called p.name vs.length : Event ω).bare =
          (Event.called p.name ws.length : Event ω).bare :=
        congrArg (Event.called p.name) hvws.length_eq
      exact (Run.alike_ofOutcome hafter (hall p vs ws s t hvws)).note hevent

/-- Operands that are alike are evaluated alike. -/
theorem evaluateAll_alike (hall : ∀ p : Procedure ω, p.IgnoresPlaces) {ms ns : List (Node ω)}
    (hmn : Node.AlikeAll ms ns) {a b : Environment ω} (h : a.Alike b) :
    (evaluateAll a ms).Alike Node.AlikeAll (evaluateAll b ns) :=
  evaluateAll_alike_of_forall hmn (fun _ _ _ hn _ _ hab => evaluate_alike hall hn hab) h

/-- Forms that are alike are evaluated alike, one after the other. -/
theorem evaluateForms_alike (hall : ∀ p : Procedure ω, p.IgnoresPlaces) {forms others : List (Node ω)}
    (hforms : Node.AlikeAll forms others) {last other : Option (Node ω)}
    (hlast : Node.AlikeIfAny last other) {a b : Environment ω} (h : a.Alike b) :
    (evaluateForms a last forms).Alike Node.AlikeIfAny (evaluateForms b other others) := by
  induction forms generalizing others last other a b with
  | nil =>
    obtain rfl := hforms.eq_nil
    exact Run.alike_done h hlast
  | cons form rest ih =>
    obtain ⟨form', rest', rfl, hform, hrest⟩ := hforms.exists_cons
    rw [evaluateForms, evaluateForms]
    refine (evaluate_alike hall hform h).andThen fun v w _ _ hvw hafter => ?_
    have hvalue : Node.AlikeIfAny (some v) (some w) := congrArg some hvw
    exact ih hrest hvalue hafter

/-- **Where something stands has no meaning.** Nodes that differ in places alone, evaluated in
    environments that do, have the same value or fail with the same error, leave the same environment
    and log the same events, all of it but for places. The procedures have to play along: all of the
    host's, since one may return another that was bound nowhere before. The built-in ones do. -/
theorem evaluation_ignores_places :
    (∀ (f : Float → Float → Float) (name : String),
      (Procedure.binary f name : Procedure ω).IgnoresPlaces) ∧
    (∀ name : String, (Procedure.variadic .sequence name : Procedure ω).IgnoresPlaces) ∧
    ((∀ p : Procedure ω, p.IgnoresPlaces) →
      ∀ (m n : Node ω) (a b : Environment ω), m.Alike n → a.Alike b →
        (evaluate a m).Alike Node.Alike (evaluate b n)) :=
  ⟨Procedure.ignoresPlaces_binary, Procedure.ignoresPlaces_sequence,
    fun hall _ _ _ _ hmn h => evaluate_alike hall hmn h⟩

end Evaluating

/-- A host that makes a list of its arguments, called in two places on a number made in two others. -/
theorem evaluation_ignores_places_of_gathered :
    letI : Operation Unit := ⟨fun _ args span => .ok (.list args span)⟩
    let gather : Procedure Unit := .variadic (.host ()) "list"
    let m : Node Unit := .list [.procedure gather ⟨1, 5⟩, .symbol "r" ⟨6, 7⟩] ⟨0, 8⟩
    let n : Node Unit := .list [.procedure gather Span.nowhere, .symbol "r" ⟨20, 21⟩] ⟨19, 30⟩
    let a := Environment.standard.define "r" (.number Environment.pi ⟨10, 12⟩)
    let b := Environment.standard.define "r" (.number Environment.pi ⟨3, 5⟩)
    (∀ p : Procedure Unit, p.IgnoresPlaces) ∧ m.Alike n ∧ a.Alike b ∧
      (evaluate a m).Alike Node.Alike (evaluate b n) := by
  let _ : Operation Unit := ⟨fun _ args span => .ok (.list args span)⟩
  intro gather m n a b
  have hall : ∀ p : Procedure Unit, p.IgnoresPlaces := by
    refine Procedure.ignoresPlaces_of_hosts fun _ _ args others s t h => .ok ?_
    rw [Node.Alike, Node.bare_list, Node.bare_list]
    exact congrArg (Node.list · Span.nowhere) h
  have hmn : m.Alike n := rfl
  have hab : a.Alike b := Environment.Alike.define (fun _ => rfl) "r" rfl
  exact ⟨hall, hmn, hab, evaluation_ignores_places.2.2 hall m n a b hmn hab⟩

end MiniLisp
