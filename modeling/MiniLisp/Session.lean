import MiniLisp.Evaluation
import MiniLisp.Reader

/-!
# Sessions: texts run in an environment

A session is an environment that lasts over several texts. This file fixes what running a text does,
and what several requests come to:

* `runFirst` reads and evaluates the first form alone; the rest of the text is not looked at;
* `runAll` reads **the whole text before anything is evaluated**, so a text that cannot be read
  leaves the environment as it was; then it evaluates form by form and stops at the first error. Its
  value is that of the last form, and none if there are no forms;
* a `Request` is a text to run, or a node to evaluate. An error ends its request, but not the session.
-/

namespace MiniLisp

variable {ω : Type}

/-! ## 1. Texts -/

/-- The value of the last form, or `last` if there are no forms. -/
def evaluateForms [Operation ω] (env : Environment ω) (last : Option (Node ω)) :
    List (Node ω) → Run ω (EvalError ω) (Option (Node ω))
  | [] => .done env last
  | form :: rest =>
    (evaluate env form).andThen fun value after => evaluateForms after (some value) rest

/-- Runs the first form of a text. -/
def runFirst [Operation ω] (env : Environment ω) (text : String) : Run ω (Error ω) (Node ω) :=
  let tokens := tokenize text
  Run.note (.tokenized tokens.length) <|
    match (readOne tokens).1 with
    | .error cause => .fail env (.read cause)
    | .ok form => (evaluate env form).mapError .eval

/-- Runs every form of a text. -/
def runAll [Operation ω] (env : Environment ω) (text : String) :
    Run ω (Error ω) (Option (Node ω)) :=
  let tokens := tokenize text
  Run.note (.tokenized tokens.length) <|
    match readAll tokens with
    | .error cause => .fail env (.read cause)
    | .ok forms => (evaluateForms env none forms).mapError .eval

/-! ## 2. Through the reader -/

section Texts

variable [Operation ω] {env : Environment ω} {text : String}

/-- Forms may be evaluated in two parts. -/
theorem evaluateForms_append (env : Environment ω) (value : Option (Node ω))
    (before after : List (Node ω)) :
    evaluateForms env value (before ++ after) =
      (evaluateForms env value before).andThen fun last middle => evaluateForms middle last after := by
  induction before generalizing env value with
  | nil => rfl
  | cons form before ih =>
    simp only [List.cons_append, evaluateForms, Run.andThen_assoc, ih]

/-- A text that can be read logs its tokens, and then what its form does. -/
theorem runFirst_of_read {form : Node ω} (h : (readOne (tokenize text)).1 = .ok form) :
    runFirst env text =
      ((evaluate env form).mapError .eval).note (.tokenized (tokenize text).length) := by
  simp only [runFirst, h]

/-- A text that cannot be read changes nothing. -/
theorem runFirst_of_unread {cause : ReadError}
    (h : (readOne (ω := ω) (tokenize text)).1 = .error cause) :
    runFirst env text = ⟨.error (.read cause), env, [.tokenized (tokenize text).length]⟩ := by
  simp only [runFirst, h]
  rfl

theorem runAll_of_read {forms : List (Node ω)} (h : readAll (tokenize text) = .ok forms) :
    runAll env text = ((evaluateForms env none forms).mapError .eval).note
      (.tokenized (tokenize text).length) := by
  simp only [runAll, h]

theorem runAll_of_unread {cause : ReadError}
    (h : readAll (ω := ω) (tokenize text) = .error cause) :
    runAll env text = ⟨.error (.read cause), env, [.tokenized (tokenize text).length]⟩ := by
  simp only [runAll, h]
  rfl

/-- A text that is one form with a value does what the form does. -/
theorem runAll_of_form {form value : Node ω} (hread : readAll (tokenize text) = .ok [form])
    {after : Environment ω} {log : List (Event ω)} (h : evaluate env form = ⟨.ok value, after, log⟩) :
    runAll env text = ⟨.ok (some value), after, .tokenized (tokenize text).length :: log⟩ := by
  rw [runAll_of_read hread, evaluateForms, h]
  simp only [Run.andThen, evaluateForms, Run.done, Run.mapError, Run.note, List.append_nil]

/-- A text that gives a name the value of another one binds the value, and its place with it. -/
theorem runAll_of_alias {name other : String} {t u v s : Span} {value : Node ω}
    (hread : readAll (ω := ω) (tokenize text) =
      .ok [.list [.symbol defineWord t, .symbol name u, .symbol other v] s])
    (h : env.get? other = some value) :
    runAll env text = ⟨.ok (some value), env.define name value,
      [.tokenized (tokenize text).length, .defined name value]⟩ :=
  runAll_of_form hread (evaluate_define_of_ok rfl (evaluate_of_bound h v) name u s)

end Texts

/-! ## 3. Requests -/

/-- What a session can be asked for. -/
inductive Request (ω : Type) where
  | node (n : Node ω)
  | first (text : String)
  | all (text : String)

/-- What a request comes to. There may be no value only where all forms of a text are run. -/
def Request.run [Operation ω] (env : Environment ω) : Request ω → Run ω (Error ω) (Option (Node ω))
  | node n => ((evaluate env n).mapError .eval).andThen fun value after => .done after (some value)
  | first text => (runFirst env text).andThen fun value after => .done after (some value)
  | all text => runAll env text

/-- What a session has come to: what is bound, and what has happened, oldest first. -/
structure Session (ω : Type) where
  env : Environment ω
  log : List (Event ω)

namespace Session

/-- A session in which nothing has happened. -/
def start (env : Environment ω) : Session ω := ⟨env, []⟩

/-- One request more. Whatever the request ends in, the session goes on in the environment it left. -/
def serve [Operation ω] (session : Session ω) (request : Request ω) : Session ω :=
  let r := request.run session.env
  ⟨r.env, session.log ++ r.log⟩

/-- Several requests more, one after the other. -/
def serveAll [Operation ω] (session : Session ω) (requests : List (Request ω)) : Session ω :=
  requests.foldl serve session

/-- The last request is served in what the others before it have come to. -/
theorem serveAll_concat [Operation ω] (session : Session ω) (requests : List (Request ω))
    (request : Request ω) :
    session.serveAll (requests ++ [request]) =
      ⟨(request.run (session.serveAll requests).env).env,
        (session.serveAll requests).log ++ (request.run (session.serveAll requests).env).log⟩ :=
  List.foldl_append

end Session

end MiniLisp
