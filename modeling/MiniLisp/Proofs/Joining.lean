import MiniLisp.Proofs.Moving
import MiniLisp.Proofs.Order
import MiniLisp.Proofs.Reading
import MiniLisp.Proofs.Seams

/-!
# Joining: one text behind another

A program may come in two texts, with a line break between them. This file fixes what it does then:

* `tokenize_join`: behind a separator, a text has the tokens it has by itself, moved;
* `readAll_join`: **behind a text that can be read, a text is read as it is by itself**, or fails as it does
  by itself, moved in both cases;
* `evaluateForms_concat`, `evaluateForms_of_first_error`: what forms come to is what the last of them comes
  to, or the first of them that fails;
* **`program_cut_between_forms`**: reading is all or nothing, evaluating is not. If the second text cannot be
  read, nothing of the first is evaluated. If it can, its forms are evaluated where the first text left off.
-/

namespace MiniLisp

variable {ω : Type}

/-! ## 1. Reading -/

/-- Behind a separator a text has its own tokens, moved. -/
theorem tokenize_join {c : Char} (h : isSeparator c = true) (a b : String) :
    tokenize (a ++ c.toString ++ b) =
      tokenize a ++ (tokenize b).map (·.shift (a.utf8ByteSize + c.utf8Size)) := by
  have hchars : (a ++ c.toString ++ b).toList = a.toList ++ c :: b.toList := by
    rw [String.toList_append, String.toList_append, List.append_assoc]
    simp [Char.toString]
  rw [tokenize, tokenize, tokenize, hchars, tokensFrom_separator h, byteLength_toList, Nat.zero_add,
    ← tokensFrom_add, Nat.zero_add]

/-- **Behind a text that can be read, a text is read as it is by itself**, moved. -/
theorem readAll_join {c : Char} (h : isSeparator c = true) {a : String} {forms : List (Node ω)}
    (ha : readAll (tokenize a) = .ok forms) (b : String) :
    readAll (tokenize (a ++ c.toString ++ b)) =
      (((readAll (tokenize b)).map (·.map (Node.shift (a.utf8ByteSize + c.utf8Size)))).mapError
        (ReadError.shift (a.utf8ByteSize + c.utf8Size))).map (forms ++ ·) := by
  rw [tokenize_join h, readAll_append (readAll_eq_ok_iff.mp ha), readAll_shift]

/-! ## 2. Forms -/

section Evaluating

variable [Operation ω]

/-- Where there is a last form, its value is the value of all. -/
theorem evaluateForms_concat (env : Environment ω) (value : Option (Node ω)) (front : List (Node ω))
    (last : Node ω) :
    evaluateForms env value (front ++ [last]) =
      (evaluateForms env value front).andThen fun _ middle =>
        (evaluate middle last).andThen fun v after => .done after (some v) :=
  evaluateForms_append env value front [last]

/-- Forms fail with the first of them that fails, and leave what it leaves. -/
theorem evaluateForms_of_first_error {env : Environment ω} {last value : Option (Node ω)}
    {before : List (Node ω)} (hbefore : (evaluateForms env last before).outcome = .ok value)
    {form : Node ω} {cause : EvalError ω}
    (hform : (evaluate (evaluateForms env last before).env form).outcome = .error cause)
    (after : List (Node ω)) :
    evaluateForms env last (before ++ form :: after) =
      ⟨.error cause, (evaluate (evaluateForms env last before).env form).env,
        (evaluateForms env last before).log ++
          (evaluate (evaluateForms env last before).env form).log⟩ := by
  rw [evaluateForms_append, Run.andThen_of_ok hbefore, evaluateForms, Run.andThen_of_error hform]

/-- Of the forms of a text the first one that fails is to blame, and those behind it are not evaluated. -/
theorem exists_first_failing_form_of_runAll {env : Environment ω} {text : String} {forms : List (Node ω)}
    (h : readAll (tokenize text) = .ok forms) {e : Error ω} (he : (runAll env text).outcome = .error e) :
    ∃ before form after value cause, forms = before ++ form :: after ∧
      (evaluateForms env none before).outcome = .ok value ∧
      (evaluate (evaluateForms env none before).env form).outcome = .error cause ∧ e = .eval cause ∧
      (runAll env text).env = (evaluate (evaluateForms env none before).env form).env ∧
      (runAll env text).log.tail = (evaluateForms env none before).log ++
        (evaluate (evaluateForms env none before).env form).log := by
  rw [runAll_of_read h] at he ⊢
  obtain ⟨cause, rfl, houtcome⟩ := Run.exists_of_mapError_error he
  obtain ⟨before, form, after, value, rfl, hbefore, hform, _⟩ := exists_first_failing_form houtcome
  rw [evaluateForms_of_first_error hbefore hform]
  exact ⟨before, form, after, value, cause, rfl, hbefore, hform, rfl, rfl, rfl⟩

/-- The value of a text is the value of its last form. -/
theorem exists_value_of_last_form {env : Environment ω} {text : String} {front : List (Node ω)}
    {last : Node ω} (h : readAll (tokenize text) = .ok (front ++ [last])) {value : Option (Node ω)}
    (hvalue : (runAll env text).outcome = .ok value) :
    ∃ v, value = some v ∧ (evaluate (evaluateForms env none front).env last).outcome = .ok v := by
  rw [runAll_of_read h] at hvalue
  have hforms : (evaluateForms env none (front ++ [last])).outcome = .ok value :=
    Run.outcome_of_mapError_ok hvalue
  rw [evaluateForms_concat] at hforms
  obtain ⟨_, _, hlast⟩ := Run.exists_of_andThen_ok hforms
  obtain ⟨v, hv, hdone⟩ := Run.exists_of_andThen_ok hlast
  exact ⟨v, (Except.ok.inj hdone).symm, hv⟩

/-! ## 3. Running -/

/-- A text that can be read fails in evaluating alone. -/
theorem outcome_runAll_ne_read {env : Environment ω} {text : String} {forms : List (Node ω)}
    (h : readAll (tokenize text) = .ok forms) (cause : ReadError) :
    (runAll env text).outcome ≠ .error (.read cause) := by
  rw [runAll_of_read h]
  exact Run.outcome_mapError_eval_ne _ cause

/-- A text that can be read comes to what its forms come to. -/
theorem outcome_runAll_eq_ok_iff {env : Environment ω} {text : String} {forms : List (Node ω)}
    (h : readAll (tokenize text) = .ok forms) {value : Option (Node ω)} :
    (runAll env text).outcome = .ok value ↔ (evaluateForms env none forms).outcome = .ok value := by
  rw [runAll_of_read h]
  refine ⟨Run.outcome_of_mapError_ok, fun hvalue => ?_⟩
  have houtcome := Run.outcome_mapError Error.eval (evaluateForms env none forms)
  rw [hvalue] at houtcome
  exact houtcome

theorem exists_of_outcome_runAll_error {env : Environment ω} {text : String} {forms : List (Node ω)}
    (h : readAll (tokenize text) = .ok forms) {e : Error ω} (he : (runAll env text).outcome = .error e) :
    ∃ cause, e = .eval cause ∧ (evaluateForms env none forms).outcome = .error cause := by
  rw [runAll_of_read h] at he
  exact Run.exists_of_mapError_error he

/-- It leaves what its forms leave. -/
theorem env_runAll_of_read {env : Environment ω} {text : String} {forms : List (Node ω)}
    (h : readAll (tokenize text) = .ok forms) :
    (runAll env text).env = (evaluateForms env none forms).env := by
  rw [runAll_of_read h]
  exact Run.env_mapError _ _

/-- **Forms of one text and then of another are evaluated one after the other.** Only the event of cutting
    into tokens is another one. -/
theorem runAll_of_read_append {env : Environment ω} {text first : String} {fs gs : List (Node ω)}
    (htext : readAll (tokenize text) = .ok (fs ++ gs)) (hfirst : readAll (tokenize first) = .ok fs) :
    let both := (runAll env first).andThen fun last after => (evaluateForms after last gs).mapError .eval
    (runAll env text).outcome = both.outcome ∧ (runAll env text).env = both.env ∧
      (runAll env text).log.tail = both.log.tail := by
  rw [runAll_of_read htext, runAll_of_read hfirst, evaluateForms_append, Run.andThen_mapError,
    Run.note_andThen]
  exact ⟨rfl, rfl, rfl⟩

/-- **A program may be cut between its forms**, at a line break say. If the second part cannot be read, the
    whole fails with the same error, moved, and nothing has happened, though the first part would run. If it
    can, the whole comes to what the first part comes to and then, unless that fails, the forms of the
    second: with the same environment, the error of the first form that fails, or the value of the last
    form, which is that of the first part where the second has no forms. -/
theorem program_cut_between_forms (env : Environment ω) {a : String} {fs : List (Node ω)}
    (ha : readAll (tokenize a) = .ok fs) (b : String) :
    let d := a.utf8ByteSize + 1
    let whole := runAll env (a ++ "\n" ++ b)
    (∀ cause, readAll (ω := ω) (tokenize b) = .error cause →
      whole.outcome = .error (.read (cause.shift d)) ∧ whole.env = env ∧
        ∀ other, (runAll env a).outcome ≠ .error (.read other)) ∧
    ∀ unmoved : List (Node ω), readAll (tokenize b) = .ok unmoved →
      let gs := unmoved.map (Node.shift d)
      let both := (runAll env a).andThen fun last after => (evaluateForms after last gs).mapError .eval
      (whole.outcome = both.outcome ∧ whole.env = both.env ∧ whole.log.tail = both.log.tail) ∧
      (∀ e, whole.outcome = .error e → ∃ before form after value cause,
        fs ++ gs = before ++ form :: after ∧ (evaluateForms env none before).outcome = .ok value ∧
        (evaluate (evaluateForms env none before).env form).outcome = .error cause ∧
        e = .eval cause ∧ whole.env = (evaluate (evaluateForms env none before).env form).env ∧
        whole.log.tail = (evaluateForms env none before).log ++
          (evaluate (evaluateForms env none before).env form).log) ∧
      ∀ value, whole.outcome = .ok value →
        (∀ front last, gs = front ++ [last] → ∃ v, value = some v ∧
          (evaluate (evaluateForms env none (fs ++ front)).env last).outcome = .ok v) ∧
        (gs = [] → (runAll env a).outcome = .ok value ∧ (fs = [] → value = none)) := by
  intro d whole
  have hjoin : readAll (tokenize (a ++ "\n" ++ b)) = _ := readAll_join (c := '\n') rfl ha b
  refine ⟨fun cause hb => ?unread, fun unmoved hb => ?read⟩
  case unread =>
    rw [hb] at hjoin
    have hwhole : whole = _ := runAll_of_unread hjoin
    rw [hwhole]
    exact ⟨rfl, rfl, outcome_runAll_ne_read ha⟩
  case read =>
    intro gs both
    rw [hb] at hjoin
    have hjoin : readAll (tokenize (a ++ "\n" ++ b)) = .ok (fs ++ gs) := hjoin
    have hboth : whole.outcome = both.outcome ∧ whole.env = both.env ∧ whole.log.tail = both.log.tail :=
      runAll_of_read_append hjoin ha
    refine ⟨hboth, fun e he => exists_first_failing_form_of_runAll hjoin he, fun value hvalue => ?_⟩
    constructor
    · intro front last hgs
      rw [hgs, ← List.append_assoc] at hjoin
      exact exists_value_of_last_form hjoin hvalue
    · intro hgs
      have hsame : both = runAll env a := by
        simp only [both, hgs, evaluateForms, Run.done_mapError]
        exact Run.andThen_done _
      rw [hboth.1, hsame] at hvalue
      refine ⟨hvalue, fun hfs => ?_⟩
      rw [runAll_of_read ha, hfs] at hvalue
      exact (Except.ok.inj hvalue).symm

end Evaluating

/-- What the first part defines is lost if the second cannot be read, and found by it otherwise. -/
theorem program_cut_between_forms_of_definition :
    let env : Environment Empty := .standard
    let pi : Node Empty := .number Environment.pi Span.nowhere
    let form : Node Empty :=
      .list [.symbol "define" ⟨1, 7⟩, .symbol "r" ⟨8, 9⟩, .symbol "pi" ⟨10, 12⟩] ⟨0, 13⟩
    let lost := runAll env ("(define r pi)" ++ "\n" ++ "r)")
    let found := runAll env ("(define r pi)" ++ "\n" ++ "r")
    readAll (tokenize "(define r pi)") = .ok [form] ∧
      (lost.outcome = .error (.read (.unexpectedClose ⟨15, 16⟩)) ∧ lost.env = env) ∧
      found.outcome = .ok (some pi) ∧ found.env = env.define "r" pi := by
  intro env pi form lost found
  have hread : readAll (tokenize "(define r pi)") = .ok [form] := rfl
  have hcut := program_cut_between_forms env hread
  obtain ⟨hlost, henv, _⟩ := (hcut "r)").1 (.unexpectedClose ⟨1, 2⟩) rfl
  obtain ⟨⟨hfound, hbound, _⟩, _⟩ := (hcut "r").2 [.symbol "r" ⟨0, 1⟩] rfl
  have hfirst : runAll env "(define r pi)" =
      ⟨.ok (some pi), env.define "r" pi, [.tokenized 5, .defined "r" pi]⟩ := by
    rw [runAll_of_alias hread Environment.get?_standard_pi]
    rfl
  have hsecond : evaluateForms (env.define "r" pi) (some pi) [.symbol "r" ⟨14, 15⟩] =
      ⟨.ok (some pi), env.define "r" pi, []⟩ := by
    have hbound : (env.define "r" pi).get? "r" = some pi := by
      rw [Environment.get?_define_self]
    rw [evaluateForms, evaluate_of_bound hbound]
    rfl
  have hboth : ((runAll env "(define r pi)").andThen fun last after =>
      (evaluateForms after last [.symbol "r" ⟨14, 15⟩]).mapError .eval) =
      ⟨.ok (some pi), env.define "r" pi, [.tokenized 5, .defined "r" pi]⟩ := by
    rw [hfirst, Run.andThen_of_ok rfl, hsecond]
    rfl
  exact ⟨hread, ⟨hlost, henv⟩, hfound.trans (congrArg Run.outcome hboth),
    hbound.trans (congrArg Run.env hboth)⟩

end MiniLisp
