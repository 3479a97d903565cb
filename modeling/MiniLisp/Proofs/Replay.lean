import MiniLisp.Proofs.Law
import MiniLisp.Session

/-!
# Replay: the environment is what the log says

A run reports each name it gives a value. This file ties that report to the environment:

* `Environment.replay`: what the definitions of a log make of an environment, in their order;
* `Environment.get?_replay`: after a replay, a name has the value it was given last, and one that was
  given none is bound as before;
* `Run.Replays`: a run leaves what its log makes of the environment it began in. One step keeps this
  (`replays_law`), and so do runs joined to each other (`Run.Replays.andThen`);
* `Environment.Effects`: what an evaluation leaves and logs, told from what is evaluated on the way. What
  is on the way is evaluated in turn (`InTurn`), and **a definition or a call adds its own part last, also
  where the call is refused** (`Environment.effects`);
* `Request.forms?`: a request that cannot be read does nothing (`Request.run_of_forms_error`), and any other
  does what its forms do (`Request.run_of_forms`);
* **`session_env_eq_replay`**: a whole session leaves what its log says, whatever its requests end in.
-/

namespace MiniLisp

variable {ω : Type}

/-! ## 1. Replaying a log -/

namespace Environment

/-- What an event makes of an environment. -/
def record (env : Environment ω) : Event ω → Environment ω
  | .defined name value => env.define name value
  | .tokenized _ => env
  | .called _ _ => env

/-- What the events of a log make of an environment, oldest first. -/
def replay (env : Environment ω) (log : List (Event ω)) : Environment ω := log.foldl record env

@[simp] theorem replay_cons (env : Environment ω) (event : Event ω) (log : List (Event ω)) :
    env.replay (event :: log) = (env.record event).replay log := rfl

@[simp] theorem replay_append (env : Environment ω) (log more : List (Event ω)) :
    env.replay (log ++ more) = (env.replay log).replay more := List.foldl_append

/-- An event that gives a name no value leaves the name as it is. -/
theorem get?_record {env : Environment ω} {event : Event ω} {name : String}
    (h : ∀ value, event ≠ .defined name value) : (env.record event).get? name = env.get? name := by
  cases event with
  | tokenized count => rfl
  | called procedure arguments => rfl
  | defined other value =>
    have hne : other ≠ name := by
      rintro rfl
      exact h value rfl
    rw [record, get?_define_of_ne hne]

/-- **After a replay a name has the value it was given last**; where it was given none, it is bound as
    before. -/
theorem get?_replay (env : Environment ω) (log : List (Event ω)) (name : String) :
    (∃ before value after, log = before ++ .defined name value :: after ∧
      (∀ other, .defined name other ∉ after) ∧ (env.replay log).get? name = some value) ∨
    ((∀ value, .defined name value ∉ log) ∧ (env.replay log).get? name = env.get? name) := by
  induction log generalizing env with
  | nil => exact .inr ⟨fun _ => List.not_mem_nil, rfl⟩
  | cons event log ih =>
    rw [replay_cons]
    rcases ih (env.record event) with ⟨before, value, after, rfl, hafter, hget⟩ | ⟨hlog, hget⟩
    · exact .inl ⟨event :: before, value, after, rfl, hafter, hget⟩
    · by_cases hevent : ∃ value, event = .defined name value
      · obtain ⟨value, rfl⟩ := hevent
        refine .inl ⟨[], value, log, rfl, hlog, ?_⟩
        rw [hget, record, get?_define_self]
      · have hne : ∀ value, event ≠ .defined name value := fun value h => hevent ⟨value, h⟩
        refine .inr ⟨fun value hmem => ?_, hget.trans (get?_record hne)⟩
        rcases List.mem_cons.mp hmem with h | h
        · exact hne value h.symm
        · exact hlog value h

end Environment

/-! ## 2. Runs that do what they say -/

namespace Run

variable {ε δ α β : Type}

/-- The run leaves what its log makes of the environment it began in. -/
def Replays (env : Environment ω) (r : Run ω ε α) : Prop := r.env = env.replay r.log

theorem Replays.note {env : Environment ω} {r : Run ω ε α} (h : r.Replays env) {event : Event ω}
    (hevent : env.record event = env) : (r.note event).Replays env := by
  show r.env = (env.record event).replay r.log
  rw [hevent]
  exact h

theorem Replays.mapError {env : Environment ω} {r : Run ω ε α} (h : r.Replays env) (f : ε → δ) :
    (r.mapError f).Replays env := by
  obtain ⟨outcome, after, log⟩ := r
  cases outcome <;> exact h

/-- **Two runs joined do what both of them say.** -/
theorem Replays.andThen {env : Environment ω} {r : Run ω ε α} (h : r.Replays env)
    {next : α → Environment ω → Run ω ε β} (hnext : ∀ value after, (next value after).Replays after) :
    (r.andThen next).Replays env := by
  obtain ⟨outcome, after, log⟩ := r
  cases outcome with
  | error cause => exact h
  | ok value =>
    have h' : after = env.replay log := h
    have hn : (next value after).env = after.replay (next value after).log := hnext value after
    show (next value after).env = env.replay (log ++ (next value after).log)
    rw [Environment.replay_append, ← h']
    exact hn

end Run

section Evaluating

variable [Operation ω]

/-- **Whatever an evaluation comes to, its log is what it has done.** -/
theorem replays_law :
    Law (fun (env : Environment ω) _ r => r.Replays env) (fun env _ r => r.Replays env) where
  number _ _ _ := rfl
  procedure _ _ _ := rfl
  bound _ _ _ _ _ := rfl
  unbound _ _ _ _ := rfl
  empty _ _ := rfl
  count _ _ _ _ _ := rfl
  target _ _ _ _ _ _ := rfl
  define env _ name _ _ _ value after log h := by
    have h' : after = env.replay log := h
    show after.define name value = env.replay (log ++ [.defined name value])
    rw [Environment.replay_append, ← h']
    rfl
  defineFails _ _ _ _ _ _ _ _ _ h := h
  head _ _ _ _ _ _ _ := rfl
  call env _ _ _ p args after log _ _ h := by
    have h' : after = env.replay log := h
    show after = env.replay (log ++ [.called p.name args.length])
    rw [Environment.replay_append, ← h']
    rfl
  callFails _ _ _ _ _ _ _ _ _ _ h := h
  nil _ := rfl
  cons env _ _ _ after log _ last more h hrest := by
    have h' : after = env.replay log := h
    show last = env.replay (log ++ more)
    rw [Environment.replay_append, ← h']
    exact hrest
  firstFails _ _ _ _ _ _ h := h
  restFails env _ _ _ after log _ last more h hrest := by
    have h' : after = env.replay log := h
    show last = env.replay (log ++ more)
    rw [Environment.replay_append, ← h']
    exact hrest

theorem evaluateForms_replays (env : Environment ω) (value : Option (Node ω))
    (forms : List (Node ω)) : (evaluateForms env value forms).Replays env := by
  induction forms generalizing env value with
  | nil => rfl
  | cons form rest ih => exact (replays_law.evaluate env form).andThen fun v after => ih after (some v)

theorem runFirst_replays (env : Environment ω) (text : String) : (runFirst env text).Replays env := by
  refine Run.Replays.note ?_ rfl
  split
  · rfl
  · exact (replays_law.evaluate env _).mapError _

theorem runAll_replays (env : Environment ω) (text : String) : (runAll env text).Replays env := by
  refine Run.Replays.note ?_ rfl
  split
  · rfl
  · exact (evaluateForms_replays env none _).mapError _

theorem Request.run_replays (env : Environment ω) (request : Request ω) :
    (request.run env).Replays env := by
  cases request with
  | node n => exact ((replays_law.evaluate env n).mapError _).andThen fun _ _ => rfl
  | first text => exact (runFirst_replays env text).andThen fun _ _ => rfl
  | all text => exact runAll_replays env text

theorem Session.serveAll_replays (env : Environment ω) (requests : List (Request ω)) :
    ((Session.start env).serveAll requests).env =
      env.replay ((Session.start env).serveAll requests).log := by
  -- for any session that has kept it so far
  suffices h : ∀ s : Session ω, s.env = env.replay s.log →
      (s.serveAll requests).env = env.replay (s.serveAll requests).log from h (Session.start env) rfl
  induction requests with
  | nil => exact fun _ h => h
  | cons request requests ih =>
    refine fun s h => ih (s.serve request) ?_
    have hr : (request.run s.env).env = s.env.replay (request.run s.env).log :=
      request.run_replays s.env
    show (request.run s.env).env = env.replay (s.log ++ (request.run s.env).log)
    rw [Environment.replay_append, ← h]
    exact hr

end Evaluating

/-! ## 3. What is done on the way to an outcome -/

/-- Nothing inside of the node is evaluated: it is no list with elements, or a definition out of shape, or
    its head stands for no procedure. -/
inductive Node.Idle (env : Environment ω) : Node ω → Prop
  | leaf (n : Node ω) (h : n.kind ≠ .list) : Idle env n
  | empty (span : Span) : Idle env (.list [] span)
  | define {head : Node ω} {operands : List (Node ω)} (span : Span) (hhead : head.isDefine = true)
      (h : ∀ name t expression, operands ≠ [.symbol name t, expression]) :
      Idle env (.list (head :: operands) span)
  | head {head : Node ω} {cause : EvalError ω} (operands : List (Node ω)) (span : Span)
      (hhead : head.isDefine = false) (h : env.resolve head = .error cause) :
      Idle env (.list (head :: operands) span)

/-- Nodes are evaluated in turn, each in the environment the one before it left, and none behind one that
    fails: what is left in the end, and what was logged. -/
inductive InTurn [Operation ω] : Environment ω → List (Node ω) → Environment ω → List (Event ω) → Prop
  | nil (env : Environment ω) : InTurn env [] env []
  | cons {env after last : Environment ω} {n value : Node ω} {rest : List (Node ω)}
      {log more : List (Event ω)} (h : evaluate env n = ⟨.ok value, after, log⟩)
      (hrest : InTurn after rest last more) : InTurn env (n :: rest) last (log ++ more)
  | stop {env after : Environment ω} {n : Node ω} {cause : EvalError ω} {log : List (Event ω)}
      (h : evaluate env n = ⟨.error cause, after, log⟩) (rest : List (Node ω)) :
      InTurn env (n :: rest) after log

/-- What evaluating comes to in an environment, told from what is evaluated on the way. -/
structure Environment.Effects [Operation ω] (env : Environment ω) : Prop where
  /-- Where nothing is evaluated on the way, nothing is bound and nothing is logged. -/
  idle : ∀ n : Node ω, n.Idle env → (evaluate env n).env = env ∧ (evaluate env n).log = []
  /-- A definition whose expression has a value binds it and logs it, behind what the expression did. -/
  define : ∀ head name expression t s value after log, head.isDefine = true →
    evaluate env expression = ⟨.ok value, after, log⟩ →
    evaluate env (.list [head, .symbol name t, expression] s) =
      ⟨.ok value, after.define name value, log ++ [.defined name value]⟩
  /-- A definition whose expression fails does what the expression did, and binds nothing itself. -/
  defineFails : ∀ head name expression t s cause after log, head.isDefine = true →
    evaluate env expression = ⟨.error cause, after, log⟩ →
    evaluate env (.list [head, .symbol name t, expression] s) = ⟨.error cause, after, log⟩
  /-- What the operands of a call have bound stays bound, also where the procedure refuses them. -/
  call : ∀ head operands p s args after log, head.isDefine = false → env.resolve head = .ok p →
    evaluateAll env operands = ⟨.ok args, after, log⟩ →
    evaluate env (.list (head :: operands) s) =
      ⟨p.apply args s, after, log ++ [.called p.name args.length]⟩
  /-- Where an operand fails, what the others before it have bound stays bound. Those behind it do not
      matter, and the call is not made. -/
  callFails : ∀ head before behind p s cause after log, head.isDefine = false →
    env.resolve head = .ok p → evaluateAll env before = ⟨.error cause, after, log⟩ →
    evaluate env (.list (head :: (before ++ behind)) s) = ⟨.error cause, after, log⟩
  /-- Operands are evaluated in turn. -/
  operands : ∀ ns : List (Node ω), InTurn env ns (evaluateAll env ns).env (evaluateAll env ns).log
  /-- What is logged for the first operands stays logged. -/
  operandsLogged : ∀ before behind : List (Node ω),
    ∃ more, (evaluateAll env (before ++ behind)).log = (evaluateAll env before).log ++ more
  /-- Forms are evaluated in turn. -/
  forms : ∀ (value : Option (Node ω)) (ns : List (Node ω)),
    InTurn env ns (evaluateForms env value ns).env (evaluateForms env value ns).log
  /-- Those behind a form that fails do not matter. -/
  formsFail : ∀ value before behind cause after log,
    evaluateForms env value before = ⟨.error cause, after, log⟩ →
    evaluateForms env value (before ++ behind) = ⟨.error cause, after, log⟩
  /-- What is logged for the first forms stays logged. -/
  formsLogged : ∀ (value : Option (Node ω)) (before behind : List (Node ω)),
    ∃ more, (evaluateForms env value (before ++ behind)).log =
      (evaluateForms env value before).log ++ more

section Effects

variable [Operation ω]

theorem Node.Idle.evaluate_eq {env : Environment ω} {n : Node ω} (h : n.Idle env) :
    (evaluate env n).env = env ∧ (evaluate env n).log = [] := by
  cases h with
  | leaf n h =>
    cases n with
    | number x s => exact evaluate_number env x s ▸ ⟨rfl, rfl⟩
    | symbol name s => exact evaluate_symbol env name s ▸ ⟨rfl, rfl⟩
    | procedure p s => exact evaluate_procedure env p s ▸ ⟨rfl, rfl⟩
    | list items s => exact absurd rfl h
  | empty s => exact evaluate_nil env s ▸ ⟨rfl, rfl⟩
  | @define head operands s hhead h =>
    by_cases hlen : operands.length = 2
    · obtain ⟨place, expression, rfl⟩ := List.length_eq_two.mp hlen
      have hplace : place.kind ≠ .symbol := by
        intro hkind
        obtain ⟨name, t, rfl⟩ := Node.exists_eq_symbol hkind
        exact h name t expression rfl
      rw [evaluate_define_target env hhead hplace]
      exact ⟨rfl, rfl⟩
    · rw [evaluate_define_count env hhead hlen]
      exact ⟨rfl, rfl⟩
  | head operands s hhead h =>
    rw [evaluate_call_of_head_error hhead h]
    exact ⟨rfl, rfl⟩

theorem evaluateAll_inTurn (env : Environment ω) (ns : List (Node ω)) :
    InTurn env ns (evaluateAll env ns).env (evaluateAll env ns).log := by
  induction ns generalizing env with
  | nil =>
    rw [evaluateAll_nil]
    exact .nil env
  | cons n rest ih =>
    rcases hrun : evaluate env n with ⟨outcome, after, log⟩
    cases outcome with
    | error cause =>
      rw [evaluateAll_cons_of_error hrun]
      exact .stop hrun rest
    | ok value =>
      have hrest := ih after
      rcases hothers : evaluateAll after rest with ⟨outcome, last, more⟩
      rw [hothers] at hrest
      cases outcome with
      | error cause =>
        rw [evaluateAll_cons_of_rest_error hrun hothers]
        exact .cons hrun hrest
      | ok values =>
        rw [evaluateAll_cons_of_ok hrun hothers]
        exact .cons hrun hrest

theorem evaluateForms_inTurn (env : Environment ω) (value : Option (Node ω)) (ns : List (Node ω)) :
    InTurn env ns (evaluateForms env value ns).env (evaluateForms env value ns).log := by
  induction ns generalizing env value with
  | nil => exact .nil env
  | cons n rest ih =>
    rcases hrun : evaluate env n with ⟨outcome, after, log⟩
    rw [evaluateForms, hrun]
    cases outcome with
    | error cause => exact .stop hrun rest
    | ok found => exact .cons hrun (ih after (some found))

/-- **Every evaluation does what is done on the way to it, and its own part last.** -/
theorem Environment.effects (env : Environment ω) : env.Effects where
  idle _ h := h.evaluate_eq
  define _ name _ t s _ _ _ hhead h := evaluate_define_of_ok hhead h name t s
  defineFails _ name _ t s _ _ _ hhead h := evaluate_define_of_error hhead h name t s
  call _ _ _ s _ _ _ hhead hp h := evaluate_call_of_ok hhead hp h s
  callFails _ before behind _ s _ _ _ hhead hp h := by
    refine evaluate_call_of_error hhead hp ?_ s
    rw [evaluateAll_append, h]
    rfl
  operands := evaluateAll_inTurn env
  operandsLogged before behind := by
    rw [evaluateAll_append]
    exact Run.exists_log_andThen _ _
  forms := evaluateForms_inTurn env
  formsFail value before behind _ _ _ h := by
    rw [evaluateForms_append, h]
    rfl
  formsLogged value before behind := by
    rw [evaluateForms_append]
    exact Run.exists_log_andThen _ _

end Effects

/-! ## 4. Requests -/

/-- An error of an evaluation is no error of reading. -/
theorem Run.outcome_mapError_eval_ne {α : Type} (r : Run ω (EvalError ω) α) (cause : ReadError) :
    (r.mapError Error.eval).outcome ≠ .error (.read cause) := by
  intro h
  obtain ⟨_, heq, _⟩ := Run.exists_of_mapError_error h
  cases heq

namespace Request

/-- The forms that a request asks for, or why they cannot be read. -/
def forms? : Request ω → Except ReadError (List (Node ω))
  | node n => .ok [n]
  | first text => (readOne (tokenize text)).1.map ([·])
  | all text => readAll (tokenize text)

variable [Operation ω] {request : Request ω}

/-- **A request that cannot be read defines nothing.** -/
theorem run_of_forms_error {cause : ReadError} (h : request.forms? = .error cause)
    (env : Environment ω) :
    ∃ count, request.run env = ⟨.error (.read cause), env, [.tokenized count]⟩ := by
  cases request with
  | node n => cases h
  | first text =>
    rw [forms?] at h
    cases hread : (readOne (ω := ω) (tokenize text)).1 with
    | ok form =>
      rw [hread] at h
      cases h
    | error other =>
      rw [hread] at h
      cases h
      refine ⟨(tokenize text).length, ?_⟩
      rw [run, runFirst_of_unread hread]
      rfl
  | all text => exact ⟨(tokenize text).length, runAll_of_unread h⟩

/-- One form is run as it is evaluated. -/
theorem mapError_evaluateForms_singleton (env : Environment ω) (n : Node ω) :
    (evaluateForms env none [n]).mapError Error.eval =
      ((evaluate env n).mapError .eval).andThen fun value after => .done after (some value) :=
  Run.andThen_mapError _ _ _

/-- **Any other request does what its forms do**, one after the other; at most the tokens of its text are
    logged before. -/
theorem run_of_forms {forms : List (Node ω)} (h : request.forms? = .ok forms) (env : Environment ω) :
    ∃ events, (∀ name value, .defined name value ∉ events) ∧
      request.run env = ⟨(evaluateForms env none forms).outcome.mapError .eval,
        (evaluateForms env none forms).env, events ++ (evaluateForms env none forms).log⟩ := by
  cases request with
  | node n =>
    cases h
    refine ⟨[], fun _ _ => List.not_mem_nil, ?_⟩
    rw [run, ← mapError_evaluateForms_singleton, Run.mapError_eq]
    rfl
  | first text =>
    rw [forms?] at h
    cases hread : (readOne (ω := ω) (tokenize text)).1 with
    | error other =>
      rw [hread] at h
      cases h
    | ok form =>
      rw [hread] at h
      cases h
      refine ⟨[.tokenized (tokenize text).length], by simp, ?_⟩
      rw [run, runFirst_of_read hread, Run.note_andThen, ← mapError_evaluateForms_singleton,
        Run.mapError_eq]
      rfl
  | all text =>
    refine ⟨[.tokenized (tokenize text).length], by simp, ?_⟩
    rw [run, runAll_of_read h, Run.mapError_eq]
    rfl

/-- A request fails in reading exactly if its forms cannot be read. -/
theorem outcome_run_eq_read_iff {env : Environment ω} {cause : ReadError} :
    (request.run env).outcome = .error (.read cause) ↔ request.forms? = .error cause := by
  cases hforms : request.forms? with
  | error other =>
    obtain ⟨count, hrun⟩ := run_of_forms_error hforms env
    rw [hrun]
    simp
  | ok forms =>
    obtain ⟨events, _, hrun⟩ := run_of_forms hforms env
    refine iff_of_false ?_ nofun
    rw [hrun, ← Run.outcome_mapError]
    exact Run.outcome_mapError_eval_ne _ cause

end Request

/-! ## 5. Sessions -/

/-- **The environment of a session is the one it began in, with the definitions of its log made in
    their order**: each name has the value it was given last, and where it was given none it is bound
    as before. A request that cannot be read defines nothing, and any other does what its forms do; a session
    adds to its log what its next request logs. What is bound on the way to a failure stays bound
    (`Environment.Effects`): a definition that has a value is logged and made, also where it stands in an
    operand of a call that is refused then; one whose expression fails does what the expression did and no
    more; and of operands and of forms those behind the one that fails are not evaluated. -/
theorem session_env_eq_replay [Operation ω] :
    (∀ (env : Environment ω) (requests : List (Request ω)),
      let session := (Session.start env).serveAll requests
      session.env = env.replay session.log ∧
      (∀ name,
        (∃ before value after, session.log = before ++ .defined name value :: after ∧
          (∀ other, .defined name other ∉ after) ∧ session.env.get? name = some value) ∨
        ((∀ value, .defined name value ∉ session.log) ∧
          session.env.get? name = env.get? name)) ∧
      ∀ request : Request ω, (Session.start env).serveAll (requests ++ [request]) =
        ⟨(request.run session.env).env, session.log ++ (request.run session.env).log⟩) ∧
    (∀ (env : Environment ω) (request : Request ω),
      (∀ cause, (request.run env).outcome = .error (.read cause) ↔ request.forms? = .error cause) ∧
      (∀ cause, (request.run env).outcome = .error (.read cause) →
        (request.run env).env = env ∧ ∀ name value, .defined name value ∉ (request.run env).log) ∧
      ∀ forms, request.forms? = .ok forms → ∃ events, (∀ name value, .defined name value ∉ events) ∧
        request.run env = ⟨(evaluateForms env none forms).outcome.mapError .eval,
          (evaluateForms env none forms).env, events ++ (evaluateForms env none forms).log⟩) ∧
    ∀ env : Environment ω, env.Effects := by
  refine ⟨fun env requests => ?session, fun env request => ⟨fun cause => Request.outcome_run_eq_read_iff,
    fun cause h => ?reading, fun forms h => Request.run_of_forms h env⟩, Environment.effects⟩
  case session =>
    intro session
    have h : session.env = env.replay session.log := Session.serveAll_replays env requests
    refine ⟨h, fun name => ?_, (Session.start env).serveAll_concat requests⟩
    rw [h]
    exact env.get?_replay _ name
  case reading =>
    obtain ⟨count, hrun⟩ := Request.run_of_forms_error (Request.outcome_run_eq_read_iff.mp h) env
    rw [hrun]
    refine ⟨rfl, fun name value hmem => ?_⟩
    cases List.mem_singleton.mp hmem

/-- A call is refused after its operands have bound a name twice. Then the expression of a definition has no
    value, and a text is not closed. Both bindings are logged, the later one stays, and no failure binds
    anything. -/
theorem session_env_eq_replay_of_refused :
    let env : Environment Empty := .standard
    let pi : Node Empty := .number Environment.pi Span.nowhere
    let last : Node Empty := .procedure (.variadic .sequence Environment.sequenceName) Span.nowhere
    let first : Node Empty :=
      .list [.symbol "define" ⟨4, 10⟩, .symbol "r" ⟨11, 12⟩, .symbol "pi" ⟨13, 15⟩] ⟨3, 16⟩
    let second : Node Empty :=
      .list [.symbol "define" ⟨18, 24⟩, .symbol "r" ⟨25, 26⟩, .symbol "begin" ⟨27, 32⟩] ⟨17, 33⟩
    let refused : Node Empty := .list [.symbol "*" ⟨1, 2⟩, first, second] ⟨0, 34⟩
    let failing : Node Empty :=
      .list [.symbol "define" ⟨1, 7⟩, .symbol "s" ⟨8, 9⟩, .symbol "t" ⟨10, 11⟩] ⟨0, 12⟩
    let bound := (env.define "r" pi).define "r" last
    let session := (Session.start env).serveAll [.node refused, .node failing, .all "(r"]
    evaluate env refused = ⟨.error (.typeMismatch .number last ⟨17, 33⟩), bound,
        [.defined "r" pi, .defined "r" last, .called "*" 2]⟩ ∧
      evaluate bound failing = ⟨.error (.unbound "t" ⟨10, 11⟩), bound, []⟩ ∧
      ((Request.all "(r").run bound).outcome = .error (.read (.unexpectedEnd .closing)) ∧
      ((Request.all "(r").run bound).env = bound ∧
      session.log = [.defined "r" pi, .defined "r" last, .called "*" 2, .tokenized 2] ∧
      session.env = bound ∧ session.env.get? "r" = some last ∧ session.env.get? "s" = none := by
  intro env pi last first second refused failing bound session
  obtain ⟨hsession, hrequest, heffects⟩ := session_env_eq_replay (ω := Empty)
  have hbound : ∀ name, name ≠ "r" → bound.get? name = env.get? name := by
    intro name hname
    rw [Environment.get?_define_of_ne hname.symm, Environment.get?_define_of_ne hname.symm]
  -- the operands are taken, each in what the one before it left, and then refused
  have hfirst : evaluate env first = ⟨.ok pi, env.define "r" pi, [.defined "r" pi]⟩ :=
    (heffects env).define _ "r" _ _ _ pi env [] rfl (evaluate_of_bound Environment.get?_standard_pi _)
  have hbegin : (env.define "r" pi).get? "begin" = some last := by
    rw [Environment.get?_define_of_ne (by decide)]
    exact Environment.get?_standard_sequence
  have hsecond : evaluate (env.define "r" pi) second = ⟨.ok last, bound, [.defined "r" last]⟩ :=
    (heffects _).define _ "r" _ _ _ last _ [] rfl (evaluate_of_bound hbegin _)
  have hoperands : evaluateAll env [first, second] =
      ⟨.ok [.number Environment.pi ⟨3, 16⟩,
          .procedure (.variadic .sequence Environment.sequenceName) ⟨17, 33⟩],
        bound, [.defined "r" pi, .defined "r" last]⟩ :=
    evaluateAll_cons_of_ok hfirst (evaluateAll_cons_of_ok hsecond (evaluateAll_nil _))
  have hrefused : evaluate env refused = ⟨.error (.typeMismatch .number last ⟨17, 33⟩), bound,
      [.defined "r" pi, .defined "r" last, .called "*" 2]⟩ :=
    (heffects env).call _ _ _ _ _ _ _ rfl
      (Environment.resolve_of_bound Environment.get?_standard_multiply _) hoperands
  have hfailing : evaluate bound failing = ⟨.error (.unbound "t" ⟨10, 11⟩), bound, []⟩ := by
    refine (heffects bound).defineFails _ "s" _ _ _ _ _ _ rfl (evaluate_of_unbound ?_ _)
    rw [hbound "t" (by decide)]
    exact Environment.get?_standard_of_notMem (by decide)
  have hread : readAll (ω := Empty) (tokenize "(r") = .error (.unexpectedEnd .closing) := rfl
  obtain ⟨hfails, hunchanged, _⟩ := hrequest bound (.all "(r")
  have hunread : ((Request.all "(r").run bound).outcome = .error (.read (.unexpectedEnd .closing)) :=
    (hfails _).mpr hread
  obtain ⟨hleft, _⟩ := hunchanged _ hunread
  have hlog : ((Request.all "(r").run bound).log = [.tokenized 2] := by
    rw [Request.run, runAll_of_unread hread]
    rfl
  -- the session, one request after the other
  have hone : (Session.start env).serveAll [.node refused] =
      ⟨bound, [.defined "r" pi, .defined "r" last, .called "*" 2]⟩ := by
    refine ((hsession env []).2.2 (.node refused)).trans ?_
    show Session.mk ((Request.node refused).run env).env ([] ++ ((Request.node refused).run env).log) = _
    rw [Request.run, hrefused]
    rfl
  have htwo : (Session.start env).serveAll [.node refused, .node failing] =
      ⟨bound, [.defined "r" pi, .defined "r" last, .called "*" 2]⟩ := by
    refine ((hsession env [.node refused]).2.2 (.node failing)).trans ?_
    rw [hone, Request.run, hfailing]
    rfl
  have hthree : session = ⟨bound, [.defined "r" pi, .defined "r" last, .called "*" 2, .tokenized 2]⟩ := by
    refine ((hsession env [.node refused, .node failing]).2.2 (.all "(r")).trans ?_
    rw [htwo, hleft, hlog]
    rfl
  refine ⟨hrefused, hfailing, hunread, hleft, ?_⟩
  rw [hthree]
  refine ⟨rfl, rfl, ?_, ?_⟩
  · exact Environment.get?_define_self ..
  · rw [hbound "s" (by decide)]
    exact Environment.get?_standard_of_notMem (by decide)

end MiniLisp
