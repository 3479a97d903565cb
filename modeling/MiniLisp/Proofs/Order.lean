import MiniLisp.Proofs.Replay
import MiniLisp.Proofs.Semantics

/-!
# Order: what is evaluated, how often, and when

What an evaluation logs can be told from the expression alone, up to what is not written in it: the
values of names and which procedure a name stands for. This file fixes:

* `Event.entry`: an event without what is not written in the expression;
* `Node.skeleton`: the entries foretold. **Operands from left to right, each of them once, then the
  call; the expression of a definition, then the name.** Nothing comes from heads, from the names that
  are defined, or from lists that are no expressions;
* `Run.Follows`: a run that logs what is foretold, or a part from the front where it fails
  (`follows_law`);
* `RefusedIn`: the call inside of a node that fails for its arguments. Its own event is the last one
  (`RefusedIn.ends`), and every error about arguments comes from such a call
  (`Evaluates.exists_refusedIn`);
* **`log_follows_skeleton`**: all of it together, and form by form for a text.
-/

namespace MiniLisp

variable {ω : Type}

/-! ## 1. What is foretold -/

/-- An event as far as an expression tells it: how many arguments a procedure is called with, and which
    name is given a value. -/
inductive Entry where
  | tokenized (count : Nat)
  | called (arguments : Nat)
  | defined (name : String)
  deriving DecidableEq, Repr

/-- What an expression tells of an event. -/
def Event.entry : Event ω → Entry
  | tokenized count => .tokenized count
  | called _ arguments => .called arguments
  | defined name _ => .defined name

namespace Node

mutual

/-- The entries that the evaluation of a node makes if nothing fails. -/
def skeleton : Node ω → List Entry
  | list (head :: operands) _ =>
    if head.isDefine then
      match operands with
      | [symbol name _, expression] => skeleton expression ++ [.defined name]
      | _ => []
    else skeletons operands ++ [.called operands.length]
  | _ => []

/-- The entries of operands, from left to right. -/
def skeletons : List (Node ω) → List Entry
  | [] => []
  | n :: rest => skeleton n ++ skeletons rest

end

@[simp] theorem skeletons_eq_flatMap (ns : List (Node ω)) : skeletons ns = ns.flatMap skeleton := by
  induction ns with
  | nil => rfl
  | cons n rest ih => rw [skeletons, ih, List.flatMap_cons]

theorem skeleton_define (t u s : Span) (name : String) (expression : Node ω) :
    (list [symbol defineWord t, symbol name u, expression] s).skeleton =
      expression.skeleton ++ [.defined name] := by
  simp [skeleton, isDefine]

/-- A definition out of shape foretells nothing. -/
theorem skeleton_define_count (t s : Span) {operands : List (Node ω)} (h : operands.length ≠ 2) :
    (list (symbol defineWord t :: operands) s).skeleton = [] := by
  match operands, h with
  | [], _ => simp [skeleton, isDefine]
  | [_], _ => simp [skeleton, isDefine]
  | [_, _], h => exact absurd rfl h
  | _ :: _ :: _ :: _, _ => simp [skeleton, isDefine]

theorem skeleton_define_target (t s : Span) {place : Node ω} (h : place.kind ≠ .symbol)
    (expression : Node ω) : (list [symbol defineWord t, place, expression] s).skeleton = [] := by
  cases place with
  | symbol name u => exact absurd rfl h
  | number x u => simp [skeleton, isDefine]
  | list items u => simp [skeleton, isDefine]
  | procedure p u => simp [skeleton, isDefine]

theorem skeleton_call {head : Node ω} (h : head.isDefine = false) (operands : List (Node ω))
    (s : Span) :
    (list (head :: operands) s).skeleton =
      operands.flatMap skeleton ++ [.called operands.length] := by
  rw [skeleton.eq_def]
  simp [h]

end Node

/-! ## 2. Runs that do what is foretold -/

/-- The run logs the entries, all of them where it has a value, and some from the front where it
    fails. -/
structure Run.Follows {ε α : Type} (entries : List Entry) (r : Run ω ε α) : Prop where
  begun : r.log.map Event.entry <+: entries
  complete : ∀ value, r.outcome = .ok value → r.log.map Event.entry = entries

/-- **Runs that do what is foretold do it together**: of the second one nothing is begun where the first
    one fails. -/
theorem Run.Follows.andThen {ε α β : Type} {as bs : List Entry} {r : Run ω ε α} (h : r.Follows as)
    {next : α → Environment ω → Run ω ε β} (hnext : ∀ value after, (next value after).Follows bs) :
    (r.andThen next).Follows (as ++ bs) := by
  obtain ⟨outcome, env, log⟩ := r
  cases outcome with
  | error cause => exact ⟨h.begun.trans (List.prefix_append as bs), nofun⟩
  | ok value =>
    obtain ⟨hbegun, hcomplete⟩ := hnext value env
    have hlog : log.map Event.entry = as := h.complete value rfl
    constructor
    · show (log ++ (next value env).log).map Event.entry <+: as ++ bs
      rw [List.map_append, hlog]
      exact (List.prefix_append_right_inj as).mpr hbegun
    · intro last hlast
      show (log ++ (next value env).log).map Event.entry = as ++ bs
      rw [List.map_append, hlog, hcomplete last hlast]

section Evaluating

variable [Operation ω]

/-- **Whatever an evaluation comes to, it does what is foretold, as far as it comes.** There are as many
    values as operands. -/
theorem follows_law :
    Law (fun (_ : Environment ω) n r => r.Follows n.skeleton)
      (fun _ ns r => r.Follows (ns.flatMap Node.skeleton) ∧
        ∀ values, r.outcome = .ok values → values.length = ns.length) where
  number _ _ _ := ⟨List.nil_prefix, fun _ _ => rfl⟩
  procedure _ _ _ := ⟨List.nil_prefix, fun _ _ => rfl⟩
  bound _ _ _ _ _ := ⟨List.nil_prefix, fun _ _ => rfl⟩
  unbound _ _ _ _ := ⟨List.nil_prefix, nofun⟩
  empty _ _ := ⟨List.nil_prefix, nofun⟩
  count _ _ _ _ _ := ⟨List.nil_prefix, nofun⟩
  target _ _ _ _ _ _ := ⟨List.nil_prefix, nofun⟩
  define _ t name u expression s value _ log h := by
    have hlog : (log ++ [Event.defined name value]).map Event.entry =
        (Node.list [.symbol defineWord t, .symbol name u, expression] s).skeleton := by
      rw [List.map_append, h.complete value rfl, Node.skeleton_define]
      rfl
    exact ⟨hlog ▸ List.prefix_rfl, fun _ _ => hlog⟩
  defineFails _ _ _ _ _ _ _ _ _ h := by
    rw [Node.skeleton_define]
    exact ⟨h.begun.trans (List.prefix_append _ _), nofun⟩
  head _ _ _ _ _ _ _ := ⟨List.nil_prefix, nofun⟩
  call _ head operands s p args _ log hcall _ h := by
    have hlog : (log ++ [Event.called p.name args.length]).map Event.entry =
        (Node.list (head :: operands) s).skeleton := by
      rw [List.map_append, h.1.complete args rfl, Node.skeleton_call hcall, ← h.2 args rfl]
      rfl
    exact ⟨hlog ▸ List.prefix_rfl, fun _ _ => hlog⟩
  callFails _ _ _ _ _ _ _ _ hcall _ h := by
    rw [Node.skeleton_call hcall]
    exact ⟨h.1.begun.trans (List.prefix_append _ _), nofun⟩
  nil _ := by
    refine ⟨⟨List.nil_prefix, fun _ _ => rfl⟩, fun values hvalues => ?_⟩
    cases hvalues
    rfl
  cons _ n rest value _ log values _ more h hrest := by
    have hlog : (log ++ more).map Event.entry = (n :: rest).flatMap Node.skeleton := by
      rw [List.map_append, h.complete value rfl, hrest.1.complete values rfl, List.flatMap_cons]
    refine ⟨⟨hlog ▸ List.prefix_rfl, fun _ _ => hlog⟩, fun all hall => ?_⟩
    cases hall
    rw [List.length_cons, List.length_cons, hrest.2 values rfl]
  firstFails _ _ _ _ _ _ h := by
    rw [List.flatMap_cons]
    exact ⟨⟨h.begun.trans (List.prefix_append _ _), nofun⟩, nofun⟩
  restFails _ _ _ value _ log _ _ more h hrest := by
    refine ⟨⟨?_, nofun⟩, nofun⟩
    show (log ++ more).map Event.entry <+: _
    rw [List.map_append, h.complete value rfl, List.flatMap_cons]
    exact (List.prefix_append_right_inj _).mpr hrest.1.begun

theorem evaluateForms_follows (env : Environment ω) (last : Option (Node ω)) (forms : List (Node ω)) :
    (evaluateForms env last forms).Follows (forms.flatMap Node.skeleton) := by
  induction forms generalizing env last with
  | nil => exact ⟨List.nil_prefix, fun _ _ => rfl⟩
  | cons form rest ih =>
    rw [List.flatMap_cons]
    exact (follows_law.evaluate env form).andThen fun value after => ih after (some value)

/-! ## 3. The last event -/

/-- The errors about arguments: how many they are, or what one of them is. -/
def EvalError.aboutArguments : EvalError ω → Bool
  | wrongArity .. => true
  | typeMismatch .. => true
  | unbound .. => false
  | notAProcedure .. => false
  | invalidForm .. => false

/-- The evaluation of a node comes to a call of `p` with `operands`, which all have values, and `p`
    refuses these values with `cause`. -/
inductive RefusedIn (p : Procedure ω) (operands : List (Node ω)) (cause : EvalError ω) :
    Environment ω → Node ω → Prop
  | call {env after : Environment ω} {head : Node ω} {args : List (Node ω)} {span : Span}
      (hp : Calls env head p) (hargs : EvaluatesAll env operands (.ok args) after)
      (h : Applies p args span (.error cause)) :
      RefusedIn p operands cause env (.list (head :: operands) span)
  | definition {env : Environment ω} {expression : Node ω} (place : Span) (name : String)
      (t span : Span) (h : RefusedIn p operands cause env expression) :
      RefusedIn p operands cause env
        (.list [.symbol defineWord place, .symbol name t, expression] span)
  | operand {env middle : Environment ω} {head n : Node ω} {q : Procedure ω}
      {before values : List (Node ω)} (hq : Calls env head q)
      (hbefore : EvaluatesAll env before (.ok values) middle)
      (h : RefusedIn p operands cause middle n) (after : List (Node ω)) (span : Span) :
      RefusedIn p operands cause env (.list (head :: (before ++ n :: after)) span)

/-- Operands fail with the first of them that fails; those behind it are not evaluated. -/
theorem evaluateAll_of_first_error {env middle : Environment ω} {before values : List (Node ω)}
    (hbefore : EvaluatesAll env before (.ok values) middle) {n : Node ω} {cause : EvalError ω}
    (hn : (evaluate middle n).outcome = .error cause) (after : List (Node ω)) :
    evaluateAll env (before ++ n :: after) =
      ⟨.error cause, (evaluate middle n).env,
        (evaluateAll env before).log ++ (evaluate middle n).log⟩ := by
  obtain ⟨hvalues, rfl⟩ := hbefore.ends
  rw [evaluateAll_append, Run.andThen_of_ok hvalues, evaluateAll_cons, Run.andThen_of_error hn]
  rfl

/-- **Where arguments are refused, the call that they are for is the last event**, however deep inside of
    the node it is. -/
theorem RefusedIn.ends {p : Procedure ω} {operands : List (Node ω)} {cause : EvalError ω}
    {env : Environment ω} {n : Node ω} (h : RefusedIn p operands cause env n) :
    (evaluate env n).outcome = .error cause ∧
      ∃ front, (evaluate env n).log = front ++ [.called p.name operands.length] := by
  induction h with
  | @call env after head args span hp hargs h =>
    obtain ⟨houtcome, -⟩ := hargs.ends
    have hlen : args.length = operands.length :=
      (follows_law.evaluateAll env operands).2 args houtcome
    rw [evaluate_call_of_ok hp.isDefine_eq_false hp.resolve_eq hargs.ends.eq, ← hlen]
    exact ⟨h.eq_apply, (evaluateAll env operands).log, rfl⟩
  | definition place name t span _ ih =>
    obtain ⟨houtcome, hlog⟩ := ih
    rw [evaluate_define _ rfl, Run.andThen_of_error houtcome]
    exact ⟨rfl, hlog⟩
  | @operand env middle head n q before values hq hbefore _ after span ih =>
    obtain ⟨houtcome, front, hlog⟩ := ih
    have hall := evaluateAll_of_first_error hbefore houtcome after
    rw [evaluate_call_of_error hq.isDefine_eq_false hq.resolve_eq hall, hlog]
    exact ⟨rfl, (evaluateAll env before).log ++ front, (List.append_assoc ..).symm⟩

/-- Of operands that fail, the first one that does is to blame. -/
theorem EvaluatesAll.exists_first_error {env after : Environment ω} {operands : List (Node ω)}
    {cause : EvalError ω} (h : EvaluatesAll env operands (.error cause) after) :
    ∃ before n rest values middle, operands = before ++ n :: rest ∧
      EvaluatesAll env before (.ok values) middle ∧ Evaluates middle n (.error cause) after := by
  induction operands generalizing env with
  | nil => cases h
  | cons n rest ih =>
    cases h with
    | firstFails _ hn => exact ⟨[], n, rest, [], env, rfl, .nil, hn⟩
    | restFails hn hrest =>
      obtain ⟨before, m, more, values, middle, rfl, hbefore, hm⟩ := ih hrest
      exact ⟨n :: before, m, more, _, middle, rfl, .cons hn hbefore, hm⟩

/-- **An error about arguments comes from a call inside of the node.** -/
theorem Evaluates.exists_refusedIn {env after : Environment ω} {n : Node ω} {cause : EvalError ω}
    (h : Evaluates env n (.error cause) after) (hcause : cause.aboutArguments = true) :
    ∃ p operands, RefusedIn p operands cause env n := by
  induction n generalizing env after with
  | symbol name span =>
    cases h
    cases hcause
  | number x span => cases h
  | procedure p span => cases h
  | list items span ih =>
    cases h with
    | empty => cases hcause
    | defineCount => cases hcause
    | defineTarget => cases hcause
    | headUnbound => cases hcause
    | headValue => cases hcause
    | headOther => cases hcause
    | call hp hargs happlies => exact ⟨_, _, .call hp hargs happlies⟩
    | defineFails place name t _ hexpression =>
      obtain ⟨p, operands, hrefused⟩ := ih _ (by simp) hexpression
      exact ⟨p, operands, .definition place name t span hrefused⟩
    | callFails _ hq hoperands =>
      obtain ⟨before, n, rest, values, middle, rfl, hbefore, hn⟩ := hoperands.exists_first_error
      obtain ⟨p, operands, hrefused⟩ := ih n (by simp) hn
      exact ⟨p, operands, .operand hq hbefore hrefused rest span⟩

/-! ## 4. Form by form -/

/-- Forms fail with the first of them that fails; those behind it are not evaluated. -/
theorem exists_first_failing_form {env : Environment ω} {last : Option (Node ω)}
    {forms : List (Node ω)} {cause : EvalError ω}
    (h : (evaluateForms env last forms).outcome = .error cause) :
    ∃ before form after value, forms = before ++ form :: after ∧
      (evaluateForms env last before).outcome = .ok value ∧
      (evaluate (evaluateForms env last before).env form).outcome = .error cause ∧
      (evaluateForms env last forms).log = (evaluateForms env last before).log ++
        (evaluate (evaluateForms env last before).env form).log := by
  induction forms generalizing env last with
  | nil => cases h
  | cons form rest ih =>
    cases houtcome : (evaluate env form).outcome with
    | error other =>
      have hrun : evaluateForms env last (form :: rest) =
          ⟨.error other, (evaluate env form).env, (evaluate env form).log⟩ :=
        Run.andThen_of_error houtcome _
      rw [hrun] at h ⊢
      cases h
      exact ⟨[], form, rest, last, rfl, rfl, houtcome, rfl⟩
    | ok value =>
      have hrun : ∀ more, evaluateForms env last (form :: more) =
          ⟨(evaluateForms (evaluate env form).env (some value) more).outcome,
            (evaluateForms (evaluate env form).env (some value) more).env,
            (evaluate env form).log ++
              (evaluateForms (evaluate env form).env (some value) more).log⟩ :=
        fun more => Run.andThen_of_ok houtcome _
      rw [hrun] at h
      obtain ⟨before, failing, after, found, rfl, hbefore, hfailing, hlog⟩ := ih h
      refine ⟨form :: before, failing, after, found, rfl, ?_⟩
      rw [hrun, hrun, hlog, List.append_assoc]
      exact ⟨hbefore, hfailing, rfl⟩

/-- **An evaluation logs the skeleton of its node**: all of it if there is a value, a part from the front
    if there is none; and if arguments are refused, the call that they are for comes last. A text that
    can be read logs its tokens and then the skeletons of its forms, up to the first form that fails. -/
theorem log_follows_skeleton :
    (∀ (env : Environment ω) (n value : Node ω), (evaluate env n).outcome = .ok value →
      (evaluate env n).log.map Event.entry = n.skeleton) ∧
    (∀ (env : Environment ω) (n : Node ω) (cause : EvalError ω),
      (evaluate env n).outcome = .error cause →
      (evaluate env n).log.map Event.entry <+: n.skeleton ∧
      (cause.aboutArguments = true → ∃ p operands, RefusedIn p operands cause env n)) ∧
    (∀ (env : Environment ω) (n : Node ω) (p : Procedure ω) (operands : List (Node ω))
      (cause : EvalError ω), RefusedIn p operands cause env n →
      (evaluate env n).outcome = .error cause ∧
      ∃ front, (evaluate env n).log = front ++ [.called p.name operands.length]) ∧
    (∀ (env : Environment ω) (text : String) (forms : List (Node ω)),
      readAll (tokenize text) = .ok forms →
      (∀ value, (runAll env text).outcome = .ok value →
        (runAll env text).log.map Event.entry =
          .tokenized (tokenize text).length :: forms.flatMap Node.skeleton) ∧
      ∀ e, (runAll env text).outcome = .error e →
        ∃ before form after value cause, forms = before ++ form :: after ∧ e = .eval cause ∧
          (evaluateForms env none before).outcome = .ok value ∧
          (evaluate (evaluateForms env none before).env form).outcome = .error cause ∧
          (runAll env text).log = .tokenized (tokenize text).length ::
            ((evaluateForms env none before).log ++
              (evaluate (evaluateForms env none before).env form).log) ∧
          (evaluateForms env none before).log.map Event.entry = before.flatMap Node.skeleton ∧
          (evaluate (evaluateForms env none before).env form).log.map Event.entry <+:
            form.skeleton) ∧
    (∀ (env : Environment ω) (text : String) (cause : ReadError),
      readAll (ω := ω) (tokenize text) = .error cause →
      (runAll env text).log = [.tokenized (tokenize text).length]) := by
  refine ⟨fun env n value h => ?value, fun env n cause h => ?error,
    fun env n p operands cause h => h.ends, fun env text forms hread => ?text,
    fun env text cause hread => ?unread⟩
  case value => exact (follows_law.evaluate env n).complete value h
  case error =>
    refine ⟨(follows_law.evaluate env n).begun, fun hcause => ?_⟩
    have hrules := evaluates_law.evaluate env n
    rw [h] at hrules
    exact hrules.exists_refusedIn hcause
  case text =>
    have hlog : (runAll env text).log =
        .tokenized (tokenize text).length :: (evaluateForms env none forms).log := by
      rw [runAll_of_read hread]
      exact congrArg _ (Run.log_mapError _ _)
    rw [runAll_of_read hread] at hlog ⊢
    refine ⟨fun value hvalue => ?_, fun e he => ?_⟩
    · have houtcome := Run.outcome_of_mapError_ok hvalue
      rw [hlog, List.map_cons, (evaluateForms_follows env none forms).complete value houtcome]
      rfl
    · obtain ⟨cause, rfl, houtcome⟩ := Run.exists_of_mapError_error he
      obtain ⟨before, form, after, value, hforms, hbefore, hform, hsplit⟩ :=
        exists_first_failing_form houtcome
      refine ⟨before, form, after, value, cause, hforms, rfl, hbefore, hform, ?_,
        (evaluateForms_follows env none before).complete value hbefore,
        (follows_law.evaluate _ form).begun⟩
      rw [hlog, hsplit]
  case unread => rw [runAll_of_unread hread]

/-- The inner call is refused, so the outer one is never made. The definition before it has been. -/
theorem log_follows_skeleton_of_refused :
    let n : Node Empty := .list [.symbol "*" ⟨1, 2⟩,
      .list [.symbol "define" ⟨4, 10⟩, .symbol "r" ⟨11, 12⟩, .symbol "pi" ⟨13, 15⟩] ⟨3, 16⟩,
      .list [.symbol "*" ⟨18, 19⟩, .symbol "r" ⟨20, 21⟩, .symbol "begin" ⟨22, 27⟩] ⟨17, 28⟩] ⟨0, 29⟩
    let multiply : Procedure Empty := .binary Environment.multiply "*"
    let operands : List (Node Empty) := [.symbol "r" ⟨20, 21⟩, .symbol "begin" ⟨22, 27⟩]
    let cause : EvalError Empty := .typeMismatch .number
      (.procedure (.variadic .sequence "begin") Span.nowhere) ⟨22, 27⟩
    RefusedIn multiply operands cause .standard n ∧
      n.skeleton = [.defined "r", .called 2, .called 2] ∧
      ∃ front, (evaluate .standard n).log = front ++ [.called "*" 2] := by
  intro n multiply operands cause
  have hstar : (Environment.standard : Environment Empty).get? "*" =
      some (.procedure multiply Span.nowhere) := Environment.get?_standard_multiply
  let middle : Environment Empty :=
    Environment.standard.define "r" (.number Environment.pi Span.nowhere)
  have hstar' : middle.get? "*" = some (.procedure multiply Span.nowhere) := by
    rw [Environment.get?_define_of_ne (by decide), hstar]
  have hr : middle.get? "r" = some (.number Environment.pi Span.nowhere) := by
    rw [Environment.get?_define_self]
  have hbegin : middle.get? "begin" =
      some (.procedure (.variadic .sequence "begin") Span.nowhere) := by
    rw [Environment.get?_define_of_ne (by decide)]
    exact Environment.get?_standard_sequence
  have hinner : RefusedIn multiply operands cause middle
      (.list (.symbol "*" ⟨18, 19⟩ :: operands) ⟨17, 28⟩) :=
    .call (.name _ (by decide) hstar') (.cons (.bound _ hr) (.cons (.bound _ hbegin) .nil))
      (.right _ _ _ _ _ _ (by decide))
  have hdefine : EvaluatesAll .standard
      [.list [.symbol "define" ⟨4, 10⟩, .symbol "r" ⟨11, 12⟩, .symbol "pi" ⟨13, 15⟩] ⟨3, 16⟩]
      (.ok [.number Environment.pi ⟨3, 16⟩]) middle :=
    .cons (.define _ "r" _ _ (.bound _ Environment.get?_standard_pi)) .nil
  have hrefused : RefusedIn multiply operands cause .standard n :=
    .operand (.name _ (by decide) hstar) hdefine hinner [] _
  exact ⟨hrefused, rfl, (log_follows_skeleton.2.2.1 _ n multiply operands cause hrefused).2⟩

end Evaluating

end MiniLisp
