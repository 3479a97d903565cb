import MiniLisp.Environment
import MiniLisp.Event

/-!
# Runs: what evaluating something amounts to

A run has an outcome (a value or an error), the environment it leaves behind, whichever outcome it
has, and its log. This file fixes how two runs are joined: **the second starts in the environment
the first one left, the logs follow each other, and after an error nothing is run.**
-/

namespace MiniLisp

/-- An outcome, the environment after it, and the events on the way to it, oldest first. -/
structure Run (ω ε α : Type) where
  outcome : Except ε α
  env : Environment ω
  log : List (Event ω)

namespace Run

variable {ω ε δ α β : Type}

/-- A value, with nothing done. -/
def done (env : Environment ω) (value : α) : Run ω ε α := ⟨.ok value, env, []⟩

/-- An error, with nothing done. -/
def fail (env : Environment ω) (cause : ε) : Run ω ε α := ⟨.error cause, env, []⟩

/-- An outcome reached with nothing done. -/
def ofOutcome (env : Environment ω) (outcome : Except ε α) : Run ω ε α := ⟨outcome, env, []⟩

/-- The same run after one more event. -/
def note (event : Event ω) (r : Run ω ε α) : Run ω ε α := ⟨r.outcome, r.env, event :: r.log⟩

/-- A second run, begun with the value and the environment of the first; none after an error. -/
def andThen (r : Run ω ε α) (next : α → Environment ω → Run ω ε β) : Run ω ε β :=
  match r.outcome with
  | .error cause => ⟨.error cause, r.env, r.log⟩
  | .ok value =>
    let rest := next value r.env
    ⟨rest.outcome, rest.env, r.log ++ rest.log⟩

/-- The same run, its error said otherwise. -/
def mapError (f : ε → δ) (r : Run ω ε α) : Run ω δ α :=
  match r.outcome with
  | .error cause => ⟨.error (f cause), r.env, r.log⟩
  | .ok value => ⟨.ok value, r.env, r.log⟩

@[simp] theorem done_andThen (env : Environment ω) (value : α)
    (next : α → Environment ω → Run ω ε β) :
    (done env value).andThen next = next value env := rfl

@[simp] theorem fail_andThen (env : Environment ω) (cause : ε)
    (next : α → Environment ω → Run ω ε β) :
    (fail env cause : Run ω ε α).andThen next = fail env cause := rfl

@[simp] theorem andThen_done (r : Run ω ε α) : r.andThen (fun value env => done env value) = r := by
  obtain ⟨outcome, env, log⟩ := r
  cases outcome <;> simp [andThen, done]

@[simp] theorem done_mapError (f : ε → δ) (env : Environment ω) (value : α) :
    (done env value : Run ω ε α).mapError f = done env value := rfl

theorem mapError_eq (f : ε → δ) (r : Run ω ε α) :
    r.mapError f = ⟨r.outcome.mapError f, r.env, r.log⟩ := by
  obtain ⟨outcome, env, log⟩ := r
  cases outcome <;> rfl

@[simp] theorem log_mapError (f : ε → δ) (r : Run ω ε α) : (r.mapError f).log = r.log := by
  rw [mapError_eq]

@[simp] theorem env_mapError (f : ε → δ) (r : Run ω ε α) : (r.mapError f).env = r.env := by
  rw [mapError_eq]

theorem outcome_mapError (f : ε → δ) (r : Run ω ε α) :
    (r.mapError f).outcome = r.outcome.mapError f := by
  rw [mapError_eq]

theorem outcome_of_mapError_ok {f : ε → δ} {r : Run ω ε α} {value : α}
    (h : (r.mapError f).outcome = .ok value) : r.outcome = .ok value := by
  obtain ⟨outcome, env, log⟩ := r
  cases outcome with
  | error cause => cases h
  | ok found => exact congrArg Except.ok (Except.ok.inj h)

theorem exists_of_mapError_error {f : ε → δ} {r : Run ω ε α} {e : δ}
    (h : (r.mapError f).outcome = .error e) : ∃ cause, e = f cause ∧ r.outcome = .error cause := by
  obtain ⟨outcome, env, log⟩ := r
  cases outcome with
  | error cause => exact ⟨cause, (Except.error.inj h).symm, rfl⟩
  | ok found => cases h

/-- What is made of the value of a run changes nothing about what it leaves. -/
theorem env_andThen_done (r : Run ω ε α) (f : α → β) :
    (r.andThen fun value after => .done after (f value)).env = r.env := by
  obtain ⟨outcome, env, log⟩ := r
  cases outcome <;> rfl

/-- What comes second only adds to the log. -/
theorem exists_log_andThen (r : Run ω ε α) (next : α → Environment ω → Run ω ε β) :
    ∃ more, (r.andThen next).log = r.log ++ more := by
  obtain ⟨outcome, env, log⟩ := r
  cases outcome with
  | error cause => exact ⟨[], (List.append_nil log).symm⟩
  | ok value => exact ⟨(next value env).log, rfl⟩

theorem andThen_of_ok {r : Run ω ε α} {value : α} (h : r.outcome = .ok value)
    (next : α → Environment ω → Run ω ε β) :
    r.andThen next =
      ⟨(next value r.env).outcome, (next value r.env).env, r.log ++ (next value r.env).log⟩ := by
  obtain ⟨outcome, env, log⟩ := r
  cases h
  rfl

theorem andThen_of_error {r : Run ω ε α} {cause : ε} (h : r.outcome = .error cause)
    (next : α → Environment ω → Run ω ε β) : r.andThen next = ⟨.error cause, r.env, r.log⟩ := by
  obtain ⟨outcome, env, log⟩ := r
  cases h
  rfl

/-- Joined runs that have a value have it because both parts have one. -/
theorem exists_of_andThen_ok {r : Run ω ε α} {next : α → Environment ω → Run ω ε β} {last : β}
    (h : (r.andThen next).outcome = .ok last) :
    ∃ value, r.outcome = .ok value ∧ (next value r.env).outcome = .ok last := by
  obtain ⟨outcome, env, log⟩ := r
  cases outcome with
  | error cause => cases h
  | ok value => exact ⟨value, rfl, h⟩

/-- Joining runs is associative. -/
theorem andThen_assoc {γ : Type} (r : Run ω ε α) (f : α → Environment ω → Run ω ε β)
    (g : β → Environment ω → Run ω ε γ) :
    (r.andThen f).andThen g = r.andThen fun value env => (f value env).andThen g := by
  obtain ⟨outcome, env, log⟩ := r
  cases outcome with
  | error cause => rfl
  | ok value =>
    simp only [andThen]
    cases (f value env).outcome <;> simp

/-- Joined runs that say their errors otherwise are joined as they are. -/
theorem andThen_mapError (f : ε → δ) (r : Run ω ε α) (next : α → Environment ω → Run ω ε β) :
    (r.andThen next).mapError f = (r.mapError f).andThen fun value env => (next value env).mapError f := by
  obtain ⟨outcome, env, log⟩ := r
  cases outcome with
  | error cause => rfl
  | ok value =>
    simp only [andThen, mapError]
    cases (next value env).outcome <;> rfl

/-- One more event in front of a run is one in front of all that follows. -/
theorem note_andThen (event : Event ω) (r : Run ω ε α) (next : α → Environment ω → Run ω ε β) :
    (r.note event).andThen next = (r.andThen next).note event := by
  obtain ⟨outcome, env, log⟩ := r
  cases outcome <;> rfl

end Run

end MiniLisp
