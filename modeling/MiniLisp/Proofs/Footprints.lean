import MiniLisp.Proofs.Order

/-!
# Footprints: which names an evaluation asks for, and which it binds

An evaluation sees little of its environment and changes little of it, and an expression tells both
beforehand. This file fixes:

* `Node.mentions`: the names that stand in a node. **Two environments that agree on them make the same of
  the node** (`evaluate_agreesOn`): the same outcome and the same log, and they still agree on them
  afterwards, also where it fails. `Environment.AgreesOn` and `Run.AgreesOn` are the invariant, kept by
  runs joined to each other (`Run.AgreesOn.andThen`);
* `Node.targets`: the names that the definitions in a node give a value. **No other name is bound
  otherwise after its evaluation** (`get?_evaluate_of_notMem`);
* `Environment.replay_comm`: logs that give values to different names may be replayed in either order.
-/

namespace MiniLisp

variable {ω : Type}

/-! ## 1. Names in a node -/

namespace Node

mutual

/-- The names that stand in a node as symbols. The word that makes a list a definition is none of them,
    as long as it stands at the head of one. -/
def mentions : Node ω → List String
  | symbol name _ => [name]
  | list (head :: operands) _ =>
    (if head.isDefine then [] else head.mentions) ++ mentionsAll operands
  | _ => []

/-- The names that stand in some of the nodes. -/
def mentionsAll : List (Node ω) → List String
  | [] => []
  | n :: rest => n.mentions ++ mentionsAll rest

end

@[simp] theorem mentionsAll_eq_flatMap (ns : List (Node ω)) :
    mentionsAll ns = ns.flatMap mentions := by
  induction ns with
  | nil => rfl
  | cons n rest ih => rw [mentionsAll, ih, List.flatMap_cons]

@[simp] theorem mentions_symbol (name : String) (s : Span) :
    (symbol name s : Node ω).mentions = [name] := by
  rw [mentions]

theorem mentions_list (head : Node ω) (operands : List (Node ω)) (s : Span) :
    (list (head :: operands) s).mentions =
      (if head.isDefine then [] else head.mentions) ++ operands.flatMap mentions := by
  rw [mentions, mentionsAll_eq_flatMap]

/-- What an operand mentions, the list mentions. -/
theorem mentions_operands_subset (head : Node ω) (operands : List (Node ω)) (s : Span) :
    operands.flatMap mentions ⊆ (list (head :: operands) s).mentions := by
  rw [mentions_list]
  exact List.subset_append_right _ _

/-- So it does with a head that is looked up. -/
theorem mentions_head_subset {head : Node ω} (h : head.isDefine = false) (operands : List (Node ω))
    (s : Span) : head.mentions ⊆ (list (head :: operands) s).mentions := by
  rw [mentions_list, h]
  exact List.subset_append_left _ _

/-- The name that a list gives a value, where it is a definition in shape. -/
def target? : List (Node ω) → Option String
  | [head, symbol name _, _] => if head.isDefine then some name else none
  | _ => none

mutual

/-- The names that definitions in a node give a value, wherever they stand in it. -/
def targets : Node ω → List String
  | list items _ => (target? items).toList ++ targetsAll items
  | _ => []

/-- The names that definitions in some of the nodes give a value. -/
def targetsAll : List (Node ω) → List String
  | [] => []
  | n :: rest => n.targets ++ targetsAll rest

end

@[simp] theorem targetsAll_eq_flatMap (ns : List (Node ω)) :
    targetsAll ns = ns.flatMap targets := by
  induction ns with
  | nil => rfl
  | cons n rest ih => rw [targetsAll, ih, List.flatMap_cons]

theorem targets_list (items : List (Node ω)) (s : Span) :
    (list items s).targets = (target? items).toList ++ items.flatMap targets := by
  rw [targets, targetsAll_eq_flatMap]

theorem target?_define (t u : Span) (name : String) (expression : Node ω) :
    target? [symbol defineWord t, symbol name u, expression] = some name := by
  simp [target?, isDefine]

theorem targets_item_subset {items : List (Node ω)} {n : Node ω} (h : n ∈ items) (s : Span) :
    n.targets ⊆ (list items s).targets := by
  intro name hname
  rw [targets_list]
  exact List.mem_append_right _ (List.mem_flatMap.mpr ⟨n, h, hname⟩)

end Node

/-! ## 2. What is asked for -/

/-- The environments answer alike for each of the names. -/
def Environment.AgreesOn (names : List String) (a b : Environment ω) : Prop :=
  ∀ name ∈ names, a.get? name = b.get? name

namespace Environment.AgreesOn

variable {names : List String} {a b : Environment ω}

theorem define (h : a.AgreesOn names b) (name : String) (value : Node ω) :
    (a.define name value).AgreesOn names (b.define name value) := by
  intro other hother
  rw [get?_define, get?_define, h other hother]

/-- A head that mentions nothing else is resolved alike. -/
theorem resolve (h : a.AgreesOn names b) {head : Node ω} (hhead : head.mentions ⊆ names) :
    a.resolve head = b.resolve head := by
  cases head with
  | symbol name s =>
    have hname : name ∈ names := hhead (by simp)
    simp only [Environment.resolve, lookup, h name hname]
  | number x s => rfl
  | list items s => rfl
  | procedure p s => rfl

end Environment.AgreesOn

namespace Run

variable {ε α β : Type} {names : List String}

/-- The runs come to the same and log the same, and what they leave agrees on the names. -/
structure AgreesOn (names : List String) (r s : Run ω ε α) : Prop where
  outcome : r.outcome = s.outcome
  log : r.log = s.log
  env : r.env.AgreesOn names s.env

/-- **Runs that agree step by step agree together.** -/
theorem AgreesOn.andThen {r s : Run ω ε α} (h : r.AgreesOn names s)
    {next other : α → Environment ω → Run ω ε β}
    (hnext : ∀ value a b, a.AgreesOn names b → (next value a).AgreesOn names (other value b)) :
    (r.andThen next).AgreesOn names (s.andThen other) := by
  obtain ⟨outcome, a, log⟩ := r
  obtain ⟨outcome', b, log'⟩ := s
  obtain ⟨houtcome, hlog, henv⟩ := h
  obtain rfl : outcome = outcome' := houtcome
  obtain rfl : log = log' := hlog
  cases outcome with
  | error cause => exact ⟨rfl, rfl, henv⟩
  | ok value =>
    have hrest := hnext value a b henv
    exact ⟨hrest.outcome, congrArg (log ++ ·) hrest.log, hrest.env⟩

end Run

section Evaluating

variable [Operation ω] {names : List String} {a b : Environment ω}

/-- Where the environments make the same of every single operand, they make the same of all. -/
theorem evaluateAll_agreesOn_of_forall {operands : List (Node ω)}
    (ih : ∀ n ∈ operands, ∀ {a b : Environment ω}, n.mentions ⊆ names → a.AgreesOn names b →
      (evaluate a n).AgreesOn names (evaluate b n))
    (hnames : operands.flatMap Node.mentions ⊆ names) (h : a.AgreesOn names b) :
    (evaluateAll a operands).AgreesOn names (evaluateAll b operands) := by
  induction operands generalizing a b with
  | nil =>
    rw [evaluateAll_nil, evaluateAll_nil]
    exact ⟨rfl, rfl, h⟩
  | cons n rest ihrest =>
    obtain ⟨hfirst, hrest⟩ := List.forall_mem_cons.mp ih
    rw [List.flatMap_cons, List.append_subset] at hnames
    rw [evaluateAll_cons, evaluateAll_cons]
    refine (hfirst hnames.1 h).andThen fun value _ _ hafter => ?_
    exact (ihrest hrest hnames.2 hafter).andThen fun values _ _ hlast => ⟨rfl, rfl, hlast⟩

/-- **Environments that agree on what a node mentions make the same of it**, and still agree then. -/
theorem evaluate_agreesOn {n : Node ω} (hnames : n.mentions ⊆ names) (h : a.AgreesOn names b) :
    (evaluate a n).AgreesOn names (evaluate b n) := by
  induction n using Node.formInduction generalizing a b with
  | symbol name s =>
    have hname : name ∈ names := hnames (by simp)
    rw [evaluate_symbol, evaluate_symbol, Environment.lookup, Environment.lookup, h name hname]
    exact ⟨rfl, rfl, h⟩
  | number x s =>
    rw [evaluate_number, evaluate_number]
    exact ⟨rfl, rfl, h⟩
  | procedure p s =>
    rw [evaluate_procedure, evaluate_procedure]
    exact ⟨rfl, rfl, h⟩
  | empty s =>
    rw [evaluate_nil, evaluate_nil]
    exact ⟨rfl, rfl, h⟩
  | count t operands s hlen =>
    rw [evaluate_define_count a rfl hlen, evaluate_define_count b rfl hlen]
    exact ⟨rfl, rfl, h⟩
  | target t place expression s hplace =>
    rw [evaluate_define_target a rfl hplace, evaluate_define_target b rfl hplace]
    exact ⟨rfl, rfl, h⟩
  | define t name u expression s ih =>
    have hexpression : expression.mentions ⊆ names := by
      refine List.Subset.trans ?_ (List.Subset.trans (Node.mentions_operands_subset _ _ s) hnames)
      exact fun other hother => List.mem_flatMap.mpr ⟨expression, by simp, hother⟩
    rw [evaluate_define a rfl, evaluate_define b rfl]
    exact (ih hexpression h).andThen fun value _ _ hafter => ⟨rfl, rfl, hafter.define name value⟩
  | call head operands s hcall ih =>
    have hhead : head.mentions ⊆ names :=
      List.Subset.trans (Node.mentions_head_subset hcall operands s) hnames
    have hoperands : operands.flatMap Node.mentions ⊆ names :=
      List.Subset.trans (Node.mentions_operands_subset head operands s) hnames
    rw [evaluate_call a hcall, evaluate_call b hcall, h.resolve hhead]
    cases b.resolve head with
    | error cause => exact ⟨rfl, rfl, h⟩
    | ok p =>
      exact (evaluateAll_agreesOn_of_forall ih hoperands h).andThen fun args _ _ hafter =>
        ⟨rfl, rfl, hafter⟩

end Evaluating

/-! ## 3. Logs in either order -/

namespace Environment

/-- What a name is bound to after a replay depends on what it was bound to alone. -/
theorem get?_replay_congr {a b : Environment ω} {name : String} (h : a.get? name = b.get? name)
    (log : List (Event ω)) : (a.replay log).get? name = (b.replay log).get? name := by
  induction log generalizing a b with
  | nil => exact h
  | cons event log ih =>
    refine ih ?_
    cases event with
    | tokenized count => exact h
    | called procedure arguments => exact h
    | defined other value => rw [record, record, get?_define, get?_define, h]

theorem get?_replay_of_notMem (env : Environment ω) {log : List (Event ω)} {name : String}
    (h : ∀ value, .defined name value ∉ log) : (env.replay log).get? name = env.get? name := by
  rcases env.get?_replay log name with ⟨before, value, after, rfl, _, _⟩ | ⟨_, hget⟩
  · exact absurd (List.mem_append_right before List.mem_cons_self) (h value)
  · exact hget

/-- **Logs that give values to different names may be replayed in either order.** -/
theorem replay_comm (env : Environment ω) {log more : List (Event ω)}
    (h : ∀ name v w, .defined name v ∈ log → .defined name w ∉ more) :
    (env.replay log).replay more = (env.replay more).replay log := by
  refine ext_get? fun name => ?_
  by_cases hname : ∃ v, .defined name v ∈ log
  · obtain ⟨v, hv⟩ := hname
    have hmore : ∀ w, .defined name w ∉ more := fun w => h name v w hv
    rw [get?_replay_of_notMem _ hmore]
    exact get?_replay_congr (get?_replay_of_notMem env hmore).symm log
  · have hlog : ∀ v, .defined name v ∉ log := fun v hv => hname ⟨v, hv⟩
    rw [get?_replay_of_notMem _ hlog]
    exact get?_replay_congr (get?_replay_of_notMem env hlog) more

end Environment

/-! ## 4. What is bound -/

/-- What an evaluation would bind, definitions in the node give a value. -/
theorem Node.mem_targets_of_mem_skeleton {name : String} {n : Node ω}
    (h : .defined name ∈ n.skeleton) : name ∈ n.targets := by
  induction n using Node.formInduction with
  | symbol other s => simp [skeleton] at h
  | number x s => simp [skeleton] at h
  | procedure p s => simp [skeleton] at h
  | empty s => simp [skeleton] at h
  | count t operands s hlen =>
    rw [skeleton_define_count t s hlen] at h
    cases h
  | target t place expression s hplace =>
    rw [skeleton_define_target t s hplace] at h
    cases h
  | define t other u expression s ih =>
    rw [skeleton_define] at h
    rcases List.mem_append.mp h with h | h
    · exact targets_item_subset (by simp) s (ih h)
    · cases List.mem_singleton.mp h
      rw [targets_list, target?_define]
      exact List.mem_cons_self
  | call head operands s hcall ih =>
    rw [skeleton_call hcall] at h
    rcases List.mem_append.mp h with h | h
    · obtain ⟨n, hn, hmem⟩ := List.mem_flatMap.mp h
      exact targets_item_subset (List.mem_cons_of_mem head hn) s (ih n hn hmem)
    · cases List.mem_singleton.mp h

section Binding

variable [Operation ω]

/-- What is not foretold to be bound is bound as before. -/
theorem get?_evaluate_of_notMem_skeleton (env : Environment ω) {n : Node ω} {name : String}
    (h : .defined name ∉ n.skeleton) : (evaluate env n).env.get? name = env.get? name := by
  have henv : (evaluate env n).env = env.replay (evaluate env n).log := replays_law.evaluate env n
  rw [henv]
  refine env.get?_replay_of_notMem fun value hmem => h ?_
  exact (follows_law.evaluate env n).begun.subset (List.mem_map.mpr ⟨_, hmem, rfl⟩)

/-- An evaluation gives no other name a value. -/
theorem mem_targets_of_mem_log {env : Environment ω} {n value : Node ω} {name : String}
    (h : .defined name value ∈ (evaluate env n).log) : name ∈ n.targets := by
  have hentry : .defined name ∈ (evaluate env n).log.map Event.entry :=
    List.mem_map.mpr ⟨_, h, rfl⟩
  exact Node.mem_targets_of_mem_skeleton ((follows_law.evaluate env n).begun.subset hentry)

/-- **What no definition in a node gives a value is bound as before.** -/
theorem get?_evaluate_of_notMem (env : Environment ω) {n : Node ω} {name : String}
    (h : name ∉ n.targets) : (evaluate env n).env.get? name = env.get? name :=
  get?_evaluate_of_notMem_skeleton env (mt Node.mem_targets_of_mem_skeleton h)

/-- What no definition in the operands gives a value is bound as before all of them. -/
theorem get?_evaluateAll_of_notMem (env : Environment ω) {operands : List (Node ω)} {name : String}
    (h : name ∉ operands.flatMap Node.targets) :
    (evaluateAll env operands).env.get? name = env.get? name := by
  induction operands generalizing env with
  | nil =>
    rw [evaluateAll_nil]
    rfl
  | cons n rest ih =>
    rw [List.flatMap_cons, List.mem_append, not_or] at h
    have hfirst := get?_evaluate_of_notMem env h.1
    rw [evaluateAll_cons]
    generalize evaluate env n = first at hfirst ⊢
    obtain ⟨outcome, after, log⟩ := first
    cases outcome with
    | error cause => exact hfirst
    | ok value =>
      have hrest := (ih after h.2).trans hfirst
      rwa [← Run.env_andThen_done (evaluateAll after rest) (value.withSpan n.span :: ·)] at hrest

end Binding

end MiniLisp
