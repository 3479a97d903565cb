import MiniLisp.Proofs.Joining
import MiniLisp.Proofs.Names
import MiniLisp.Proofs.Places

/-!
# Sequencing: a call of `begin` and a text of several forms

Forms can be put one after another in two ways: as operands of `begin`, and as the forms of a text. The
operands of a call are gathered before it is applied, the forms of a text are run one by one. This file
fixes that it comes to the same:

* `evaluateAll_andThen`: operands and forms do the same on the way, whatever is made of their values;
* **`evaluate_sequence`**: a sequence comes to what its last operand comes to, evaluated behind the others.
  The head is resolved before all of them, so an operand may rebind it;
* `IsName.spells_call`: a text behind a name in parentheses is read as the operands of one call, moved;
* **`sequence_runs_as_text`**: a text in `(begin …)` and the text by itself agree but for places.
-/

namespace MiniLisp

variable {ω : Type}

/-! ## 1. Operands and forms -/

section Evaluating

variable [Operation ω]

/-- **Operands and forms do the same on the way**, whatever is made of their values: it can only be told
    how many they are. -/
theorem evaluateAll_andThen {α : Type} (env : Environment ω) (value : Option (Node ω))
    (ns : List (Node ω)) (next : Nat → Environment ω → Run ω (EvalError ω) α) :
    ((evaluateAll env ns).andThen fun values after => next values.length after) =
      (evaluateForms env value ns).andThen fun _ after => next ns.length after := by
  induction ns generalizing env value next with
  | nil =>
    rw [evaluateAll_nil]
    rfl
  | cons n rest ih =>
    rw [evaluateAll_cons, evaluateForms, Run.andThen_assoc, Run.andThen_assoc]
    congr 1
    funext v after
    rw [Run.andThen_assoc]
    -- behind the first operand there is one value more
    exact ih after (some v) fun count => next (count + 1)

/-- **A sequence comes to what its last operand comes to**, evaluated behind the others. -/
theorem evaluate_sequence {env : Environment ω} {head : Node ω} (hhead : head.isDefine = false)
    {name : String} (h : env.resolve head = .ok (.variadic .sequence name)) (front : List (Node ω))
    (last : Node ω) (span : Span) :
    evaluate env (.list (head :: (front ++ [last])) span) =
      ((evaluateForms env none front).andThen fun _ middle => evaluate middle last).andThen
        fun value after =>
          (Run.done after (value.withSpan last.span)).note (.called name (front.length + 1)) := by
  rw [evaluate_call env hhead, h, Run.andThen_assoc]
  show (evaluateAll env (front ++ [last])).andThen _ = _
  -- of the values in front nothing is left but their number, so forms may take the place of operands
  rw [evaluateAll_append, Run.andThen_assoc, ← evaluateAll_andThen env none front fun count middle =>
    (evaluate middle last).andThen fun value after =>
      (Run.done after (value.withSpan last.span)).note (.called name (count + 1))]
  congr 1
  funext values middle
  rw [evaluateAll_cons]
  simp only [evaluateAll_nil, Run.andThen_assoc, Run.done_andThen]
  congr 1
  funext value after
  rw [Procedure.call, apply_sequence_concat, List.length_append]
  rfl

end Evaluating

/-! ## 2. A text behind a name in parentheses -/

/-- A text behind a name in parentheses spells one call, its operands the forms of the text, moved. -/
theorem IsName.spells_call {name : String} (h : IsName name) {text : String} {forms : List (Node ω)}
    (hforms : readAll (tokenize text) = .ok forms) :
    let d := name.utf8ByteSize + 2
    Spells [.list (.symbol name ⟨1, 1 + name.utf8ByteSize⟩ :: forms.map (Node.shift d))
        ⟨0, d + text.utf8ByteSize + 1⟩]
      (tokenize ("(" ++ name ++ " " ++ text ++ ")")) := by
  intro d
  have hchars : ("(" ++ name ++ " " ++ text ++ ")").toList =
      '(' :: ((name.toList ++ ' ' :: text.toList) ++ [')']) := by simp
  have hlen : 0 + 1 + byteLength (name.toList ++ ' ' :: text.toList) + 1 = d + text.utf8ByteSize + 1 := by
    rw [byteLength_append, byteLength_cons, byteLength_toList, byteLength_toList]
    show 0 + 1 + (_ + (1 + _)) + 1 = name.utf8ByteSize + 2 + _ + 1
    omega
  have hname : Spells [(.symbol name ⟨1, 1 + name.utf8ByteSize⟩ : Node ω)] (tokensFrom 1 name.toList) := by
    rw [← h.ofAtom_eq, ← byteLength_toList]
    exact spells_atom h.toList_ne_nil h.isAtomChar 1
  have htext : Spells (forms.map (Node.shift d))
      (tokensFrom (1 + byteLength name.toList + 1) text.toList) := by
    have hstart : 1 + byteLength name.toList + 1 = 0 + d := by
      rw [byteLength_toList]
      omega
    rw [hstart, tokensFrom_add]
    exact (readAll_eq_ok_iff.mp hforms).shift d
  rw [tokenize, hchars, ← hlen]
  refine spells_parens ?_
  rw [Nat.zero_add, tokensFrom_separator rfl]
  exact hname.append htext

/-! ## 3. Running -/

/-- The value of one form and that of the last of several, alike, or the same error at two places. -/
inductive AlikeEnds : Except (Error ω) (Node ω) → Except (Error ω) (Option (Node ω)) → Prop
  | value {v w : Node ω} (h : v.Alike w) : AlikeEnds (.ok v) (.ok (some w))
  | error {c d : EvalError ω} (h : c.bare = d.bare) : AlikeEnds (.error (.eval c)) (.error (.eval d))

section Running

variable [Operation ω]

theorem runFirst_of_spells {env : Environment ω} {text : String} {form : Node ω}
    (h : Spells [form] (tokenize text)) :
    runFirst env text = ((evaluate env form).mapError .eval).note (.tokenized (tokenize text).length) := by
  have hread := readOne_of_spells h []
  rw [List.append_nil] at hread
  exact runFirst_of_read (congrArg Prod.fst hread)

/-- **A text in a call of the sequence is run form by form, where the forms stand then.** The value takes
    the span of the last form. -/
theorem runFirst_sequence {env : Environment ω} {name : String} {place : Span}
    (hsequence : env.get? "begin" = some (.procedure (.variadic .sequence name) place))
    {text : String} {forms : List (Node ω)} (hread : readAll (tokenize text) = .ok forms)
    (hforms : forms ≠ []) :
    let wrapped := runFirst env ("(begin " ++ text ++ ")")
    let pieces := evaluateForms env none (forms.map (Node.shift 7))
    wrapped.env = pieces.env ∧
      (∀ cause, pieces.outcome = .error cause → wrapped.outcome = .error (.eval cause)) ∧
      ∀ value, pieces.outcome = .ok value →
        ∃ w span, value = some w ∧ wrapped.outcome = .ok (w.withSpan span) := by
  intro wrapped pieces
  have hcall : Spells [.list (.symbol "begin" ⟨1, 6⟩ :: forms.map (Node.shift 7))
      ⟨0, 7 + text.utf8ByteSize + 1⟩] (tokenize ("(begin " ++ text ++ ")")) :=
    Environment.isName_sequenceName.spells_call hread
  obtain ⟨front, last, rfl⟩ := (List.eq_nil_or_concat' forms).resolve_left hforms
  have hmoved : (front ++ [last]).map (Node.shift 7) = front.map (Node.shift 7) ++ [last.shift 7] := by
    rw [List.map_append, List.map_singleton]
  have hpieces : pieces = _ := congrArg (evaluateForms env none) hmoved
  have hwrapped : wrapped = _ := runFirst_of_spells hcall
  have hhead : (Node.symbol "begin" ⟨1, 6⟩ : Node ω).isDefine = false := rfl
  rw [hmoved, evaluate_sequence hhead (Environment.resolve_of_bound hsequence _)] at hwrapped
  rw [evaluateForms_concat, ← Run.andThen_assoc] at hpieces
  rw [hwrapped, hpieces]
  generalize (evaluateForms env none (front.map (Node.shift 7))).andThen
    (fun _ middle => evaluate middle (last.shift 7)) = r
  obtain ⟨outcome, after, log⟩ := r
  cases outcome with
  | error cause =>
    refine ⟨rfl, fun other hother => ?_, nofun⟩
    cases hother
    rfl
  | ok v =>
    refine ⟨rfl, nofun, fun value hvalue => ?_⟩
    cases hvalue
    exact ⟨v, (last.shift 7).span, rfl, rfl⟩

/-- **A text in a call of the sequence and the text by itself agree.** It comes to exactly what its forms
    come to where they stand then, the value with another span. If the procedures of the host cannot tell
    where something stands, that is what the text comes to by itself, but for places: the same value or the
    same error, and the same environment. The forms may rebind what they like, the name of the sequence and
    those of other procedures among them. -/
theorem sequence_runs_as_text {env : Environment ω} {name : String} {place : Span}
    (hsequence : env.get? "begin" = some (.procedure (.variadic .sequence name) place))
    {text : String} {forms : List (Node ω)} (hread : readAll (tokenize text) = .ok forms)
    (hforms : forms ≠ []) :
    let wrapped := runFirst env ("(begin " ++ text ++ ")")
    let pieces := evaluateForms env none (forms.map (Node.shift 7))
    let whole := runAll env text
    (wrapped.env = pieces.env ∧
      (∀ cause, pieces.outcome = .error cause → wrapped.outcome = .error (.eval cause)) ∧
      ∀ value, pieces.outcome = .ok value →
        ∃ w span, value = some w ∧ wrapped.outcome = .ok (w.withSpan span)) ∧
    ((∀ (f : ω) (name : String), (Procedure.variadic (.host f) name).IgnoresPlaces) →
      AlikeEnds wrapped.outcome whole.outcome ∧ wrapped.env.Alike whole.env) := by
  intro wrapped pieces whole
  have hpieces := runFirst_sequence hsequence hread hforms
  refine ⟨hpieces, fun hosts => ?_⟩
  obtain ⟨henv, herror, hvalue⟩ := hpieces
  have hmoved : Node.AlikeAll (forms.map (Node.shift 7)) forms := by
    rw [Node.AlikeAll, List.map_map]
    exact List.map_congr_left fun n _ => n.bare_shift 7
  have hnone : Node.AlikeIfAny (none : Option (Node ω)) none := rfl
  have halike := evaluateForms_alike (Procedure.ignoresPlaces_of_hosts hosts) hmoved hnone
    (fun name => rfl : env.Alike env)
  have hwhole : whole = _ := runAll_of_read hread
  have houtcome : whole.outcome = (evaluateForms env none forms).outcome.mapError Error.eval := by
    rw [hwhole]
    exact Run.outcome_mapError ..
  constructor
  · obtain ⟨hends, _, _⟩ := halike
    rw [houtcome]
    generalize hfirst : (evaluateForms env none (forms.map (Node.shift 7))).outcome = o at hends
    generalize (evaluateForms env none forms).outcome = u at hends
    cases hends with
    | error hcause =>
      rw [show wrapped.outcome = _ from herror _ hfirst]
      exact .error hcause
    | @ok _ value hvw =>
      obtain ⟨w, span, rfl, hw⟩ := hvalue _ hfirst
      obtain ⟨v, rfl, hv⟩ := Option.map_eq_some_iff.mp hvw.symm
      rw [show wrapped.outcome = _ from hw]
      refine .value ?_
      rw [Node.Alike, Node.bare_withSpan]
      exact hv.symm
  · rw [show wrapped.env = _ from henv, hwhole]
    show (evaluateForms env none _).env.Alike ((evaluateForms env none forms).mapError Error.eval).env
    rw [Run.env_mapError]
    exact halike.env

end Running

/-- A host that makes a list of its arguments. Both come to a list with `pi` in it, though `begin` is bound to
    that procedure on the way. -/
theorem sequence_runs_as_text_of_rebinding :
    letI : Operation Unit := ⟨fun _ args span => .ok (.list args span)⟩
    let gather : Node Unit := .procedure (.variadic (.host ()) "list") Span.nowhere
    let env := Environment.standard.define "list" gather
    let forms : List (Node Unit) :=
      [.list [.symbol "define" ⟨1, 7⟩, .symbol "begin" ⟨8, 13⟩, .symbol "list" ⟨14, 18⟩] ⟨0, 19⟩,
        .list [.symbol "begin" ⟨21, 26⟩, .symbol "pi" ⟨27, 29⟩] ⟨20, 30⟩]
    let wrapped := runFirst env "(begin (define begin list) (begin pi))"
    let whole := runAll env "(define begin list) (begin pi)"
    env.get? "begin" = some (.procedure (.variadic .sequence "begin") Span.nowhere) ∧
      readAll (tokenize "(define begin list) (begin pi)") = .ok forms ∧ forms ≠ [] ∧
      (∀ (f : Unit) (name : String), (Procedure.variadic (.host f) name).IgnoresPlaces) ∧
      AlikeEnds wrapped.outcome whole.outcome ∧ wrapped.env.Alike whole.env := by
  let _ : Operation Unit := ⟨fun _ args span => .ok (.list args span)⟩
  intro gather env forms wrapped whole
  have hsequence : env.get? "begin" = some (.procedure (.variadic .sequence "begin") Span.nowhere) := by
    rw [Environment.get?_define_of_ne (by decide)]
    exact Environment.get?_standard_sequence
  have hread : readAll (tokenize "(define begin list) (begin pi)") = .ok forms := rfl
  have hforms : forms ≠ [] := List.cons_ne_nil _ _
  have hosts : ∀ (f : Unit) (name : String), (Procedure.variadic (.host f) name).IgnoresPlaces := by
    refine fun _ _ args others s t h => .ok ?_
    rw [Node.Alike, Node.bare_list, Node.bare_list]
    exact congrArg (Node.list · Span.nowhere) h
  exact ⟨hsequence, hread, hforms, hosts, (sequence_runs_as_text hsequence hread hforms).2 hosts⟩

end MiniLisp
