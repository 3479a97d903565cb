import MiniLisp.Proofs.Semantics
import MiniLisp.Proofs.Slices
import MiniLisp.Session

/-!
# Values: what texts can bind and return

A host may build any node and bind any name to it. Texts cannot: no text has a procedure in it, and no
rule of evaluation returns a symbol or a list. This file fixes what is left:

* `Node.IsValue`: a number, or one of the two built-in procedures;
* `Node.Keeps fit good`: evaluating what is fit makes good nodes of good nodes, as far as a look at one form
  or one call tells. **Then every evaluation does**, and binds no others (`Node.Keeps.law`);
* `Environment.Ordinary`: nothing but values is bound. An evaluation of what can be read keeps this and
  returns a value (`ordinary_law`), and so do runs joined to each other (`Run.Ordinary.andThen`);
* `Environment.Reachable`: the environments of sessions that begin with the standard one and run
  texts; **they are all ordinary** (`Environment.Reachable.ordinary`).
-/

namespace MiniLisp

variable {ω : Type}

/-! ## 1. Values -/

/-- Multiplication or sequencing, under the name it has from the beginning. -/
inductive Procedure.Builtin : Procedure ω → Prop
  | multiply : Builtin (.binary Environment.multiply "*")
  | sequence : Builtin (.variadic .sequence Environment.sequenceName)

/-- A number or a built-in procedure. -/
inductive Node.IsValue : Node ω → Prop
  | number (x : Float) (span : Span) : IsValue (.number x span)
  | procedure {p : Procedure ω} (builtin : p.Builtin) (span : Span) : IsValue (.procedure p span)

namespace Node

theorem IsValue.withSpan {n : Node ω} (h : n.IsValue) (s : Span) : (n.withSpan s).IsValue := by
  cases h with
  | number x _ => exact .number x s
  | procedure builtin _ => exact .procedure builtin s

theorem IsValue.builtin {p : Procedure ω} {s : Span} (h : (Node.procedure p s).IsValue) : p.Builtin := by
  cases h with
  | procedure builtin _ => exact builtin

/-- What can be read has no procedure in it. -/
theorem not_readable_procedure (p : Procedure ω) (s : Span) : ¬ (procedure p s).Readable := nofun

theorem Readable.items {items : List (Node ω)} {s : Span} (h : (Node.list items s).Readable) :
    ∀ n ∈ items, n.Readable := by
  cases h with
  | list _ _ all => exact all

end Node

/-- Built-in procedures make values of values. -/
theorem Applies.isValue [Operation ω] {p : Procedure ω} {args : List (Node ω)} {s : Span}
    {value : Node ω} (h : Applies p args s (.ok value)) (hp : p.Builtin)
    (hargs : ∀ arg ∈ args, arg.IsValue) : value.IsValue := by
  cases hp with
  | multiply =>
    cases h with
    | numbers => exact .number _ s
  | sequence =>
    cases h with
    | last _ args => exact hargs value (List.mem_append_right args List.mem_cons_self)

/-! ## 2. What evaluations keep -/

/-- Nothing but good nodes is bound. -/
def Environment.Binds (good : Node ω → Prop) (env : Environment ω) : Prop :=
  ∀ name value, env.get? name = some value → good value

theorem Environment.Binds.define {good : Node ω → Prop} {env : Environment ω} (h : env.Binds good)
    (name : String) {value : Node ω} (hvalue : good value) : (env.define name value).Binds good := by
  intro other found hfound
  rw [get?_define] at hfound
  split at hfound
  · cases hfound
    exact hvalue
  · exact h other found hfound

/-- Fit programs make good nodes of good nodes: what they consist of is fit again, what stands for itself in
    them is good wherever it stands, and a good procedure makes something good of good arguments. -/
structure Node.Keeps [Operation ω] (fit good : Node ω → Prop) : Prop where
  item : ∀ {items s}, fit (.list items s) → ∀ n ∈ items, fit n
  number : ∀ x s, good (.number x s)
  procedure : ∀ {p s}, fit (.procedure p s) → good (.procedure p s)
  withSpan : ∀ {n}, good n → ∀ s, good (n.withSpan s)
  apply : ∀ {p : Procedure ω} {place args span value}, good (.procedure p place) →
    (∀ arg ∈ args, good arg) → p.apply args span = .ok value → good value

namespace Node.Keeps

variable [Operation ω] {fit good : Node ω → Prop}

/-- What a fit head calls is good, where nothing but good nodes is bound. -/
theorem exists_of_resolve (h : Keeps fit good) {env : Environment ω} (henv : env.Binds good)
    {head : Node ω} (hhead : fit head) {p : Procedure ω} (hp : env.resolve head = .ok p) :
    ∃ place, good (.procedure p place) := by
  obtain ⟨span, rfl⟩ | ⟨name, span, place, rfl, hget⟩ := Environment.resolve_eq_ok hp
  · exact ⟨span, h.procedure hhead⟩
  · exact ⟨place, henv name _ hget⟩

/-- **Evaluations of fit programs bind good nodes and have them as values**, where nothing else is bound. -/
theorem law (h : Keeps fit good) :
    Law (fun env n r => env.Binds good → fit n →
        r.env.Binds good ∧ ∀ value, r.outcome = .ok value → good value)
      (fun env ns r => env.Binds good → (∀ n ∈ ns, fit n) →
        r.env.Binds good ∧ ∀ values, r.outcome = .ok values → ∀ value ∈ values, good value) where
  number env x s henv _ := ⟨henv, fun _ heq => Except.ok.inj heq ▸ h.number x s⟩
  procedure env p s henv hn := ⟨henv, fun _ heq => Except.ok.inj heq ▸ h.procedure hn⟩
  bound env name s value hget henv _ := ⟨henv, fun _ heq => Except.ok.inj heq ▸ henv name value hget⟩
  unbound env name s _ henv _ := ⟨henv, nofun⟩
  empty env s henv _ := ⟨henv, nofun⟩
  count env t operands s _ henv _ := ⟨henv, nofun⟩
  target env t place expression s _ henv _ := ⟨henv, nofun⟩
  define env t name u expression s value after log hrun henv hn := by
    obtain ⟨hafter, hvalue⟩ := hrun henv (h.item hn expression (by simp))
    exact ⟨hafter.define name (hvalue value rfl), fun _ heq => Except.ok.inj heq ▸ hvalue value rfl⟩
  defineFails env t name u expression s cause after log hrun henv hn :=
    ⟨(hrun henv (h.item hn expression (by simp))).1, nofun⟩
  head env head operands s cause _ _ henv _ := ⟨henv, nofun⟩
  call env head operands s p args after log _ hp hrun henv hn := by
    obtain ⟨hhead, hoperands⟩ := List.forall_mem_cons.mp (h.item hn)
    obtain ⟨hafter, hargs⟩ := hrun henv hoperands
    -- the head was resolved before the operands were evaluated, in the environment begun with
    obtain ⟨place, hplace⟩ := h.exists_of_resolve henv hhead hp
    exact ⟨hafter, fun _ hvalue => h.apply hplace (hargs args rfl) hvalue⟩
  callFails env head operands s p cause after log _ _ hrun henv hn :=
    ⟨(hrun henv (List.forall_mem_cons.mp (h.item hn)).2).1, nofun⟩
  nil env henv _ := ⟨henv, fun _ heq => Except.ok.inj heq ▸ nofun⟩
  cons env n rest value after log values last more hrun hrest henv hn := by
    obtain ⟨hfirst, hothers⟩ := List.forall_mem_cons.mp hn
    obtain ⟨hafter, hvalue⟩ := hrun henv hfirst
    obtain ⟨hlast, hvalues⟩ := hrest hafter hothers
    refine ⟨hlast, fun _ heq => Except.ok.inj heq ▸ ?_⟩
    exact List.forall_mem_cons.mpr ⟨h.withSpan (hvalue value rfl) n.span, hvalues values rfl⟩
  firstFails env n rest cause after log hrun henv hn :=
    ⟨(hrun henv (List.forall_mem_cons.mp hn).1).1, nofun⟩
  restFails env n rest value after log cause last more hrun hrest henv hn := by
    obtain ⟨hfirst, hothers⟩ := List.forall_mem_cons.mp hn
    exact ⟨(hrest (hrun henv hfirst).1 hothers).1, nofun⟩

end Node.Keeps

/-! ## 3. Ordinary environments -/

namespace Environment

/-- Nothing but values is bound. -/
def Ordinary (env : Environment ω) : Prop :=
  ∀ name value, env.get? name = some value → value.IsValue

theorem Ordinary.define {env : Environment ω} (h : env.Ordinary) (name : String) {value : Node ω}
    (hvalue : value.IsValue) : (env.define name value).Ordinary :=
  Binds.define h name hvalue

theorem ordinary_standard : (standard : Environment ω).Ordinary := by
  have hempty : (empty : Environment ω).Ordinary := by
    intro name value h
    rw [get?_empty] at h
    cases h
  exact ((hempty.define "pi" (.number pi _)).define "*" (.procedure .multiply _)).define sequenceName
    (.procedure .sequence _)

/-- What a head that can be read calls is built in. -/
theorem Ordinary.builtin_of_resolve {env : Environment ω} (h : env.Ordinary) {head : Node ω}
    (hhead : head.Readable) {p : Procedure ω} (hp : env.resolve head = .ok p) : p.Builtin := by
  obtain ⟨span, rfl⟩ | ⟨name, span, place, rfl, hget⟩ := resolve_eq_ok hp
  · exact absurd hhead (Node.not_readable_procedure p span)
  · exact (h name _ hget).builtin

end Environment

namespace Run

variable {ε δ α β : Type} {good : α → Prop}

/-- The run leaves an ordinary environment, and a value it has is a good one. -/
def Ordinary (good : α → Prop) (r : Run ω ε α) : Prop :=
  r.env.Ordinary ∧ ∀ value, r.outcome = .ok value → good value

theorem Ordinary.mapError {r : Run ω ε α} (h : r.Ordinary good) (f : ε → δ) :
    (r.mapError f).Ordinary good := by
  obtain ⟨outcome, env, log⟩ := r
  cases outcome with
  | error cause => exact ⟨h.1, nofun⟩
  | ok value => exact ⟨h.1, fun other hother => h.2 other (congrArg _ (Except.ok.inj hother))⟩

theorem Ordinary.note {r : Run ω ε α} (h : r.Ordinary good) (event : Event ω) :
    (r.note event).Ordinary good := h

/-- **Runs that are ordinary one by one are ordinary together.** -/
theorem Ordinary.andThen {good' : β → Prop} {r : Run ω ε α} (h : r.Ordinary good)
    {next : α → Environment ω → Run ω ε β}
    (hnext : ∀ value env, env.Ordinary → good value → (next value env).Ordinary good') :
    (r.andThen next).Ordinary good' := by
  obtain ⟨outcome, env, log⟩ := r
  cases outcome with
  | error cause => exact ⟨h.1, nofun⟩
  | ok value => exact hnext value env h.1 (h.2 value rfl)

theorem ordinary_fail {env : Environment ω} (h : env.Ordinary) (cause : ε) :
    (fail env cause : Run ω ε α).Ordinary good := ⟨h, nofun⟩

theorem ordinary_done {env : Environment ω} (h : env.Ordinary) {value : α} (hvalue : good value) :
    (done env value : Run ω ε α).Ordinary good :=
  ⟨h, fun _ heq => Except.ok.inj heq ▸ hvalue⟩

end Run

section Evaluating

variable [Operation ω]

/-- What can be read makes values of values. -/
theorem keeps_values : Node.Keeps (ω := ω) Node.Readable Node.IsValue where
  item := Node.Readable.items
  number := .number
  procedure hfit := absurd hfit (Node.not_readable_procedure _ _)
  withSpan := Node.IsValue.withSpan
  apply hp hargs hvalue := (hvalue ▸ applies_apply _ _ _).isValue hp.builtin hargs

/-- **Whatever is read, its evaluation binds values and returns one.** -/
theorem ordinary_law :
    Law (fun (env : Environment ω) n r => env.Ordinary → n.Readable → r.Ordinary Node.IsValue)
      (fun env ns r => env.Ordinary → (∀ n ∈ ns, n.Readable) →
        r.Ordinary fun values => ∀ value ∈ values, value.IsValue) :=
  keeps_values.law

theorem evaluateForms_ordinary {forms : List (Node ω)} (hforms : ∀ form ∈ forms, form.Readable)
    {env : Environment ω} (henv : env.Ordinary) {last : Option (Node ω)}
    (hlast : ∀ value ∈ last, value.IsValue) :
    (evaluateForms env last forms).Ordinary fun last => ∀ value ∈ last, value.IsValue := by
  induction forms generalizing env last with
  | nil => exact Run.ordinary_done henv hlast
  | cons form rest ih =>
    obtain ⟨hform, hrest⟩ := List.forall_mem_cons.mp hforms
    refine (ordinary_law.evaluate env form henv hform).andThen fun value after hafter hvalue => ?_
    exact ih hrest hafter fun _ hmem => Option.some.inj hmem ▸ hvalue

/-! ## 4. Texts -/

theorem runFirst_ordinary {env : Environment ω} (henv : env.Ordinary) (text : String) :
    (runFirst env text).Ordinary Node.IsValue := by
  refine Run.Ordinary.note ?_ _
  cases h : (readOne (ω := ω) (tokenize text)).1 with
  | error cause => exact Run.ordinary_fail henv _
  | ok form =>
    exact (ordinary_law.evaluate env form henv (readText_readable h)).mapError _

theorem runAll_ordinary {env : Environment ω} (henv : env.Ordinary) (text : String) :
    (runAll env text).Ordinary fun last => ∀ value ∈ last, value.IsValue := by
  refine Run.Ordinary.note ?_ _
  cases h : readAll (ω := ω) (tokenize text) with
  | error cause => exact Run.ordinary_fail henv _
  | ok forms =>
    have hnone : ∀ value ∈ (none : Option (Node ω)), value.IsValue := fun value h => by cases h
    exact (evaluateForms_ordinary (readAll_readable h) henv hnone).mapError _

end Evaluating

/-- The environments a session can come to that begins with the standard one and runs texts, whatever
    each of them ends in. -/
inductive Environment.Reachable [Operation ω] : Environment ω → Prop
  | standard : Reachable .standard
  | first {env : Environment ω} (text : String) (h : Reachable env) :
      Reachable (runFirst env text).env
  | all {env : Environment ω} (text : String) (h : Reachable env) : Reachable (runAll env text).env

/-- **Texts bind nothing but values.** -/
theorem Environment.Reachable.ordinary [Operation ω] {env : Environment ω} (h : env.Reachable) :
    env.Ordinary := by
  induction h with
  | standard => exact ordinary_standard
  | first text _ ih => exact (runFirst_ordinary ih text).1
  | all text _ ih => exact (runAll_ordinary ih text).1

end MiniLisp
