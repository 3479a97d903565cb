import MiniLisp.Proofs.Values
import MiniLisp.Report

/-!
# Blame: what the span of an error points at

A value keeps the place it was made at, and it may be bound and come up again in a later text. Errors
never point there. This file fixes what they point at:

* `EvalError.Blames`: the node that an error is about, among the nodes it may be about. An evaluation
  blames what is inside of the node (`blames_law`), since each argument is judged at the place of its
  operand;
* `ReadError.Blames`: reading blames a closing parenthesis among the tokens, or their end;
* `Node.Occurs`: the nodes that are read from a text, which all are slices of it;
* **`error_points_into_text`**: whatever texts were run before, an error of a text points into this
  text, and it can be shown there.
-/

namespace MiniLisp

variable {ω : Type}

/-! ## 1. What an evaluation blames -/

/-- Each error is about one of the nodes with `piece`, in its own way, and has the span of this node or
    of one right inside of it; `after` is what is bound when it comes up. -/
inductive EvalError.Blames (piece : Node ω → Prop) (after : Environment ω) : EvalError ω → Prop
  | unbound {name : String} {span : Span} (symbol : piece (.symbol name span))
      (free : after.get? name = none) : Blames piece after (.unbound name span)
  | notAProcedure (found : Node ω) {head : Node ω} {operands : List (Node ω)} {span : Span}
      (call : piece (.list (head :: operands) span)) :
      Blames piece after (.notAProcedure found head.span)
  | wrongArity (procedure : String) (expected : Expectation) {head : Node ω}
      {operands : List (Node ω)} {span : Span} (call : piece (.list (head :: operands) span)) :
      Blames piece after (.wrongArity procedure expected operands.length span)
  | leftOperand (expected : Expectation) (found : Node ω) {head left right : Node ω} {span : Span}
      (call : piece (.list [head, left, right] span)) :
      Blames piece after (.typeMismatch expected found left.span)
  | rightOperand (expected : Expectation) (found : Node ω) {head left right : Node ω} {span : Span}
      (call : piece (.list [head, left, right] span)) :
      Blames piece after (.typeMismatch expected found right.span)
  | emptyList {span : Span} (list : piece (.list [] span)) :
      Blames piece after (.invalidForm .emptyList span)
  | operandCount {word span : Span} {operands : List (Node ω)}
      (definition : piece (.list (.symbol defineWord word :: operands) span))
      (count : operands.length ≠ 2) :
      Blames piece after (.invalidForm (.operandCount operands.length) span)
  | target {word span : Span} {target expression : Node ω}
      (definition : piece (.list [.symbol defineWord word, target, expression] span))
      (kind : target.kind ≠ .symbol) :
      Blames piece after (.invalidForm (.target target.kind) target.span)

/-- What is about one of some nodes is about one of more nodes. -/
theorem EvalError.Blames.mono {piece more : Node ω → Prop} {after : Environment ω}
    {cause : EvalError ω} (h : cause.Blames piece after) (hmore : ∀ n, piece n → more n) :
    cause.Blames more after := by
  cases h with
  | unbound symbol free => exact .unbound (hmore _ symbol) free
  | notAProcedure found call => exact .notAProcedure found (hmore _ call)
  | wrongArity procedure expected call => exact .wrongArity procedure expected (hmore _ call)
  | leftOperand expected found call => exact .leftOperand expected found (hmore _ call)
  | rightOperand expected found call => exact .rightOperand expected found (hmore _ call)
  | emptyList list => exact .emptyList (hmore _ list)
  | operandCount definition count => exact .operandCount (hmore _ definition) count
  | target definition kind => exact .target (hmore _ definition) kind

/-- A head that cannot be called is blamed itself. -/
theorem Environment.blames_of_resolve {env : Environment ω} {head : Node ω} {cause : EvalError ω}
    (h : env.resolve head = .error cause) (operands : List (Node ω)) (s : Span) :
    cause.Blames (·.Inside (.list (head :: operands) s)) env := by
  obtain ⟨name, span, rfl, hfree, rfl⟩ | ⟨name, span, value, rfl, _, _, rfl⟩ | ⟨_, _, rfl⟩ :=
    resolve_eq_error h
  · exact .unbound (.item s List.mem_cons_self .self) hfree
  · show EvalError.Blames _ env (.notAProcedure _ (Node.symbol name span : Node ω).span)
    exact .notAProcedure _ .self
  · exact .notAProcedure _ .self

section Evaluating

variable [Operation ω]

/-- **A built-in procedure blames the call, or the operands at whose places its arguments stand.** -/
theorem Applies.blames {p : Procedure ω} {args operands : List (Node ω)} {s : Span}
    {cause : EvalError ω} (h : Applies p args s (.error cause)) (hp : p.Builtin)
    (hplaces : args.map Node.span = operands.map Node.span) {piece : Node ω → Prop} {head : Node ω}
    (call : piece (.list (head :: operands) s)) (after : Environment ω) :
    cause.Blames piece after := by
  have hlen : args.length = operands.length := by
    have := congrArg List.length hplaces
    rwa [List.length_map, List.length_map] at this
  cases hp with
  | multiply =>
    cases h with
    | count =>
      rw [hlen]
      exact .wrongArity _ _ call
    | left _ _ a b _ ha =>
      obtain ⟨left, right, rfl⟩ := List.length_eq_two.mp hlen.symm
      obtain ⟨hleft, _⟩ := List.cons.inj hplaces
      rw [hleft]
      exact .leftOperand _ _ call
    | right _ _ x t b _ hb =>
      obtain ⟨left, right, rfl⟩ := List.length_eq_two.mp hlen.symm
      obtain ⟨_, hrest⟩ := List.cons.inj hplaces
      rw [(List.cons.inj hrest).1]
      exact .rightOperand _ _ call
  | sequence =>
    cases h with
    | none =>
      obtain rfl := List.length_eq_zero_iff.mp hlen.symm
      exact .wrongArity _ _ call

/-- Where the run fails, its error is about one of the nodes with `piece`. -/
def Run.Blames {α : Type} (piece : Node ω → Prop) (r : Run ω (EvalError ω) α) : Prop :=
  ∀ cause, r.outcome = .error cause → cause.Blames piece r.env

/-- **Whatever is read, its evaluation blames nothing but what is inside of it.** The values of operands
    stand where the operands do. -/
theorem blames_law :
    Law (fun (env : Environment ω) n r =>
        (env.Ordinary → n.Readable → r.Ordinary Node.IsValue) ∧
        (env.Ordinary → n.Readable → r.Blames (·.Inside n)))
      (fun env ns r =>
        (env.Ordinary → (∀ n ∈ ns, n.Readable) →
          r.Ordinary fun values => ∀ value ∈ values, value.IsValue) ∧
        (env.Ordinary → (∀ n ∈ ns, n.Readable) → r.Blames (fun m => ∃ n ∈ ns, m.Inside n)) ∧
        ∀ values, r.outcome = .ok values → values.map Node.span = ns.map Node.span) where
  number env x s := ⟨ordinary_law.number env x s, fun _ _ => nofun⟩
  procedure env p s := ⟨ordinary_law.procedure env p s, fun _ _ => nofun⟩
  bound env name s value hget := ⟨ordinary_law.bound env name s value hget, fun _ _ => nofun⟩
  unbound env name s hget := by
    refine ⟨ordinary_law.unbound env name s hget, fun _ _ cause h => ?_⟩
    cases h
    exact .unbound .self hget
  empty env s := by
    refine ⟨ordinary_law.empty env s, fun _ _ cause h => ?_⟩
    cases h
    exact .emptyList .self
  count env t operands s hlen := by
    refine ⟨ordinary_law.count env t operands s hlen, fun _ _ cause h => ?_⟩
    cases h
    exact .operandCount .self hlen
  target env t place expression s hplace := by
    refine ⟨ordinary_law.target env t place expression s hplace, fun _ _ cause h => ?_⟩
    cases h
    exact .target .self hplace
  define env t name u expression s value after log h :=
    ⟨ordinary_law.define env t name u expression s value after log h.1, fun _ _ => nofun⟩
  defineFails env t name u expression s cause after log h := by
    refine ⟨ordinary_law.defineFails env t name u expression s cause after log h.1, ?_⟩
    intro henv hn other hother
    have hmem : expression ∈ [.symbol defineWord t, .symbol name u, expression] := by simp
    exact (h.2 henv (hn.items expression hmem) other hother).mono fun _ => .item s hmem
  head env head operands s cause hcall hp := by
    refine ⟨ordinary_law.head env head operands s cause hcall hp, fun _ _ other h => ?_⟩
    cases h
    exact Environment.blames_of_resolve hp operands s
  call env head operands s p args after log hcall hp h := by
    obtain ⟨hordinary, _, hplaces⟩ := h
    refine ⟨ordinary_law.call env head operands s p args after log hcall hp hordinary, ?_⟩
    intro henv hn cause hcause
    -- no operation of a host can be bound, so the procedure is one of the two built-in ones
    have happlies := applies_apply p args s
    rw [show p.apply args s = .error cause from hcause] at happlies
    have hbuiltin := henv.builtin_of_resolve (hn.items head List.mem_cons_self) hp
    exact happlies.blames hbuiltin (hplaces args rfl) .self after
  callFails env head operands s p cause after log hcall hp h := by
    obtain ⟨hordinary, hblames, _⟩ := h
    refine ⟨ordinary_law.callFails env head operands s p cause after log hcall hp hordinary, ?_⟩
    intro henv hn other hother
    cases hother
    have hoperands := (List.forall_mem_cons.mp hn.items).2
    refine (hblames henv hoperands cause rfl).mono ?_
    rintro m ⟨n, hmem, hm⟩
    exact .item s (List.mem_cons_of_mem head hmem) hm
  nil env := by
    refine ⟨ordinary_law.nil env, fun _ _ => nofun, fun values h => ?_⟩
    cases h
    rfl
  cons env n rest value after log values last more h hrest := by
    refine ⟨ordinary_law.cons env n rest value after log values last more h.1 hrest.1,
      fun _ _ => nofun, fun all hall => ?_⟩
    cases hall
    rw [List.map_cons, List.map_cons, Node.span_withSpan, hrest.2.2 values rfl]
  firstFails env n rest cause after log h := by
    refine ⟨ordinary_law.firstFails env n rest cause after log h.1, ?_, nofun⟩
    intro henv hn other hother
    cases hother
    have hfirst := hn n List.mem_cons_self
    exact (h.2 henv hfirst cause rfl).mono fun m hm => ⟨n, List.mem_cons_self, hm⟩
  restFails env n rest value after log cause last more h hrest := by
    refine ⟨ordinary_law.restFails env n rest value after log cause last more h.1 hrest.1, ?_, nofun⟩
    intro henv hn other hother
    obtain ⟨hfirst, hothers⟩ := List.forall_mem_cons.mp hn
    have hafter := (h.1 henv hfirst).1
    refine (hrest.2.1 hafter hothers other hother).mono ?_
    rintro m ⟨k, hmem, hm⟩
    exact ⟨k, List.mem_cons_of_mem n hmem, hm⟩

/-- Forms blame what is inside of one of them. -/
theorem evaluateForms_blames {forms : List (Node ω)} (hforms : ∀ form ∈ forms, form.Readable)
    {env : Environment ω} (henv : env.Ordinary) (last : Option (Node ω)) :
    (evaluateForms env last forms).Blames fun m => ∃ form ∈ forms, m.Inside form := by
  induction forms generalizing env last with
  | nil => exact nofun
  | cons form rest ih =>
    obtain ⟨hform, hrest⟩ := List.forall_mem_cons.mp hforms
    obtain ⟨hordinary, hblames⟩ := blames_law.evaluate env form
    have hordinary := hordinary henv hform
    have hblames := hblames henv hform
    rw [evaluateForms]
    generalize evaluate env form = r at hordinary hblames ⊢
    obtain ⟨outcome, after, log⟩ := r
    intro cause hcause
    cases outcome with
    | error other =>
      cases hcause
      exact (hblames cause rfl).mono fun m hm => ⟨form, List.mem_cons_self, hm⟩
    | ok value =>
      refine (ih hrest hordinary.1 (some value) cause hcause).mono ?_
      rintro m ⟨k, hmem, hm⟩
      exact ⟨k, List.mem_cons_of_mem form hmem, hm⟩

end Evaluating

/-! ## 2. What reading blames -/

/-- A reading error is about a closing parenthesis among the tokens, or about their end. -/
inductive ReadError.Blames (tokens : List Token) : ReadError → Prop
  | close {span : Span} (mem : ⟨.closing, span⟩ ∈ tokens) : Blames tokens (.unexpectedClose span)
  | missing (expected : Expectation) : Blames tokens (.unexpectedEnd expected)

theorem readOne_blames {ts : List Token} {cause : ReadError}
    (h : (readOne ts).1 = (.error cause : Except ReadError (Node ω))) : cause.Blames ts := by
  rcases ts with _ | ⟨⟨lexeme, s⟩, more⟩
  · cases h
    exact .missing _
  cases lexeme with
  | atom text => cases h
  | closing =>
    cases h
    exact .close List.mem_cons_self
  | opening =>
    rcases readOne_opening (ω := ω) s more with ⟨n, p, rest, _, _, _, hr⟩ | ⟨_, hr⟩
    · rw [hr] at h
      cases h
    · rw [hr] at h
      cases h
      exact .missing _

theorem readAll_blames {ts : List Token} {cause : ReadError}
    (h : readAll ts = (.error cause : Except ReadError (List (Node ω)))) : cause.Blames ts := by
  rcases keeps_or_excess (Int.le_refl 0) ts with hk | ⟨before, t, after, rfl, hk, ht⟩
  · have hend := hk ts (List.prefix_refl ts)
    by_cases h0 : depth ts = 0
    · obtain ⟨forms, hforms⟩ := readAll_of_keeps (ω := ω) hk h0
      rw [hforms] at h
      cases h
    · rw [readAll_of_open hk (by omega)] at h
      cases h
      exact .missing _
  · rw [Int.zero_add] at ht
    rw [readAll_of_excess hk ht] at h
    cases h
    have hstep : t.step < 0 := by
      have := hk before (List.prefix_refl before)
      rw [depth_append, depth_cons, depth_nil] at ht
      omega
    have hclosing : t = ⟨.closing, t.span⟩ := by
      rw [← t.lexeme_of_step_neg hstep]
    refine .close ?_
    rw [← hclosing]
    exact List.mem_append_right before List.mem_cons_self

/-! ## 3. Nodes of a text -/

/-- The node is read from the text: inside of its first form, or inside of one of all its forms. -/
def Node.Occurs (text : String) (n : Node ω) : Prop :=
  ∃ form, (readText text = .ok form ∨ ∃ forms, readAll (tokenize text) = .ok forms ∧ form ∈ forms) ∧
    n.Inside form

theorem Node.Inside.of_item {items : List (Node ω)} {s : Span} {m n : Node ω}
    (h : (Node.list items s).Inside n) (mem : m ∈ items) : m.Inside n := by
  induction h with
  | self => exact .item s mem .self
  | item span hmem _ ih => exact .item span hmem ih

namespace Node.Occurs

variable {text : String}

theorem stands {n : Node ω} (h : n.Occurs text) : ∃ part, n.Stands 0 text.toList part := by
  obtain ⟨form, hform, hinside⟩ := h
  obtain ⟨whole, hwhole⟩ : ∃ whole, form.Stands 0 text.toList whole := by
    rcases hform with hfirst | ⟨forms, hforms, hmem⟩
    · exact readText_stands hfirst
    · exact readAll_stands hforms form hmem
  exact hinside.stands hwhole

theorem of_item {items : List (Node ω)} {s : Span} {n : Node ω} (h : (Node.list items s).Occurs text)
    (mem : n ∈ items) : n.Occurs text := by
  obtain ⟨form, hform, hinside⟩ := h
  exact ⟨form, hform, hinside.of_item mem⟩

end Node.Occurs

/-- An error of evaluation points at a node of the text it is about. -/
theorem EvalError.Blames.exists_occurs {text : String} {after : Environment ω} {cause : EvalError ω}
    (h : cause.Blames (·.Occurs text) after) : ∃ n : Node ω, n.Occurs text ∧ n.span = cause.span := by
  cases h with
  | unbound symbol free => exact ⟨_, symbol, rfl⟩
  | notAProcedure found call => exact ⟨_, call.of_item List.mem_cons_self, rfl⟩
  | wrongArity procedure expected call => exact ⟨_, call, rfl⟩
  | leftOperand expected found call => exact ⟨_, call.of_item (by simp), rfl⟩
  | rightOperand expected found call => exact ⟨_, call.of_item (by simp), rfl⟩
  | emptyList list => exact ⟨_, list, rfl⟩
  | operandCount definition count => exact ⟨_, definition, rfl⟩
  | target definition kind => exact ⟨_, definition.of_item (by simp), rfl⟩

/-! ## 4. What a text blames -/

/-- An error of a text is about one of its tokens, about its end, or about a node of it; `after` is what
    is bound when it comes up. -/
inductive Error.Blames (text : String) (after : Environment ω) : Error ω → Prop
  | read {cause : ReadError} (h : cause.Blames (tokenize text)) : Blames text after (.read cause)
  | eval {cause : EvalError ω} (h : cause.Blames (·.Occurs text) after) :
      Blames text after (.eval cause)

/-- A closing parenthesis among the tokens of a text is one of its characters. -/
theorem selects_closing {text : String} {span : Span} (h : ⟨.closing, span⟩ ∈ tokenize text) :
    span.Selects 0 text.toList [')'] := by
  have hslice := (cut_tokensFrom 0 text.toList).slices _ h
  have htext : (Token.mk .closing span).text.toList = [')'] := Lexeme.toList_text_closing
  rwa [htext] at hslice

/-- What a symbol of a text takes out of it is its name. -/
theorem Node.Occurs.selects_name {text name : String} {span : Span}
    (h : (Node.symbol name span : Node ω).Occurs text) : span.Selects 0 text.toList name.toList := by
  obtain ⟨part, hpart⟩ := h.stands
  have hselects := hpart.selects
  rwa [hpart.fills.eq_name] at hselects

namespace Error.Blames

variable {text : String} {after : Environment ω} {e : Error ω}

/-- **The span of an error takes out characters of the text**, one at least. -/
theorem exists_selects (h : e.Blames text after) {span : Span} (hspan : e.span? = some span) :
    ∃ part, part ≠ [] ∧ span.Selects 0 text.toList part := by
  cases h with
  | read h =>
    cases h with
    | close mem =>
      cases hspan
      exact ⟨[')'], List.cons_ne_nil _ _, selects_closing mem⟩
    | missing expected => cases hspan
  | eval h =>
    cases hspan
    obtain ⟨n, hn, hspan⟩ := h.exists_occurs
    obtain ⟨part, hpart⟩ := hn.stands
    rw [← hspan]
    exact ⟨part, hpart.fills.ne_nil, hpart.selects⟩

/-- The error can be shown: where it has no span, at the end of the text. -/
theorem exists_report (h : e.Blames text after) : ∃ report, e.report text = .ok report := by
  refine ⟨_, Error.report_eq_ok ?_⟩
  cases hspan : e.span? with
  | none =>
    rw [Error.blame, hspan]
    exact Nat.le_refl _
  | some span =>
    obtain ⟨part, _, hpart⟩ := h.exists_selects hspan
    rw [Error.blame, hspan]
    show span.start ≤ span.stop
    rw [hpart.stop_eq]
    exact Nat.le_add_right _ _

end Error.Blames

/-- What an evaluation of nodes of a text blames, the text blames. -/
theorem Run.Blames.mapError {α : Type} {text : String} {r : Run ω (EvalError ω) α}
    (h : r.Blames (·.Occurs text)) {e : Error ω} (he : (r.mapError Error.eval).outcome = .error e) :
    e.Blames text (r.mapError Error.eval).env := by
  obtain ⟨outcome, env, log⟩ := r
  cases outcome with
  | error cause =>
    cases he
    exact .eval (h cause rfl)
  | ok value => cases he

section Texts

variable [Operation ω] {env : Environment ω}

theorem runFirst_blames (henv : env.Ordinary) {text : String} {e : Error ω}
    (he : (runFirst env text).outcome = .error e) : e.Blames text (runFirst env text).env := by
  cases hread : (readOne (ω := ω) (tokenize text)).1 with
  | error cause =>
    rw [runFirst_of_unread hread] at he ⊢
    cases he
    exact .read (readOne_blames hread)
  | ok form =>
    rw [runFirst_of_read hread] at he ⊢
    have hform : readText text = .ok form := hread
    have hblames := (blames_law.evaluate env form).2 henv (readText_readable hform)
    have htext : (evaluate env form).Blames (·.Occurs text) :=
      fun cause hcause => (hblames cause hcause).mono fun n hn => ⟨form, .inl hform, hn⟩
    exact htext.mapError he

theorem runAll_blames (henv : env.Ordinary) {text : String} {e : Error ω}
    (he : (runAll env text).outcome = .error e) : e.Blames text (runAll env text).env := by
  cases hread : readAll (ω := ω) (tokenize text) with
  | error cause =>
    rw [runAll_of_unread hread] at he ⊢
    cases he
    exact .read (readAll_blames hread)
  | ok forms =>
    rw [runAll_of_read hread] at he ⊢
    have hblames := evaluateForms_blames (readAll_readable hread) henv none
    have htext : (evaluateForms env none forms).Blames (·.Occurs text) := by
      refine fun cause hcause => (hblames cause hcause).mono ?_
      rintro n ⟨form, hform, hn⟩
      exact ⟨form, .inr ⟨forms, hread, hform⟩, hn⟩
    exact htext.mapError he

end Texts

/-- What an error tells about the text it comes up in; `after` is what is bound then. -/
structure Error.PointsInto (text : String) (after : Environment ω) (e : Error ω) : Prop where
  /-- The span takes out characters of the text, one at least. -/
  slice : ∀ span, e.span? = some span →
    span.start < span.stop ∧ span.stop ≤ text.utf8ByteSize ∧
      ∃ part, span.Selects 0 text.toList part
  /-- The error can be shown over the text. -/
  shown : ∃ report, e.report text = .ok report
  /-- A parenthesis that closes nothing is a parenthesis of the text. -/
  close : ∀ span, e = .read (.unexpectedClose span) → span.Selects 0 text.toList [')']
  /-- A name that is unbound is what the span takes out, and it is unbound when the error comes up. -/
  name : ∀ name span, e = .eval (.unbound name span) →
    span.Selects 0 text.toList name.toList ∧ after.get? name = none
  /-- What cannot be evaluated is a node of the text. -/
  node : ∀ cause, e = .eval cause → cause.Blames (·.Occurs text) after

theorem Error.Blames.pointsInto {text : String} {after : Environment ω} {e : Error ω}
    (h : e.Blames text after) : e.PointsInto text after where
  slice span hspan := by
    obtain ⟨part, hne, hpart⟩ := h.exists_selects hspan
    have hpos := byteLength_pos hne
    have hstop := hpart.stop_le
    rw [byteLength_toList, Nat.zero_add] at hstop
    refine ⟨?_, hstop, part, hpart⟩
    rw [hpart.stop_eq]
    omega
  shown := h.exists_report
  close span hclose := by
    subst hclose
    cases h with
    | read h =>
      cases h with
      | close mem => exact selects_closing mem
  name name span hname := by
    subst hname
    cases h with
    | eval h =>
      cases h with
      | unbound symbol free => exact ⟨symbol.selects_name, free⟩
  node cause hcause := by
    subst hcause
    cases h with
    | eval h => exact h

/-- **An error of a text points into this text**, whatever texts were run before, and whether its first
    form is run or all of them. -/
theorem error_points_into_text [Operation ω] {env : Environment ω} (h : env.Reachable)
    (text : String) :
    (∀ e, (runFirst env text).outcome = .error e → e.PointsInto text (runFirst env text).env) ∧
    (∀ e, (runAll env text).outcome = .error e → e.PointsInto text (runAll env text).env) :=
  ⟨fun _ he => (runFirst_blames h.ordinary he).pointsInto,
    fun _ he => (runAll_blames h.ordinary he).pointsInto⟩

/-- A second name for multiplication, used where a number is wanted. The value was made in no text; the
    error points at the name in this one. -/
theorem error_points_into_text_of_alias :
    let env : Environment Empty := (runAll .standard "(define m *)").env
    let e : Error Empty :=
      .eval (.typeMismatch .number (.procedure (.binary Environment.multiply "*") Span.nowhere) ⟨6, 7⟩)
    (runFirst env "(* pi m)").outcome = .error e ∧
      e.PointsInto "(* pi m)" (runFirst env "(* pi m)").env := by
  intro env e
  have hdefine : readAll (tokenize "(define m *)") =
      .ok [(.list [.symbol "define" ⟨1, 7⟩, .symbol "m" ⟨8, 9⟩, .symbol "*" ⟨10, 11⟩] ⟨0, 12⟩ :
        Node Empty)] := by rfl
  have hcall : (readOne (tokenize "(* pi m)")).1 =
      .ok (.list [.symbol "*" ⟨1, 2⟩, .symbol "pi" ⟨3, 5⟩, .symbol "m" ⟨6, 7⟩] ⟨0, 8⟩ :
        Node Empty) := by rfl
  have henv : env = Environment.standard.define "m"
      (.procedure (.binary Environment.multiply "*") Span.nowhere) := by
    simp only [env, runAll_of_alias hdefine Environment.get?_standard_multiply]
  have hold : ∀ name, name ≠ "m" → env.get? name = Environment.standard.get? name := by
    intro name hname
    rw [henv, Environment.get?_define_of_ne hname.symm]
  have hm : env.get? "m" = some (.procedure (.binary Environment.multiply "*") Span.nowhere) := by
    rw [henv, Environment.get?_define_self]
  have hpi := evaluate_of_bound ((hold "pi" (by decide)).trans Environment.get?_standard_pi) ⟨3, 5⟩
  have hstar := Environment.resolve_of_bound
    ((hold "*" (by decide)).trans Environment.get?_standard_multiply) ⟨1, 2⟩
  have hoperands := evaluateAll_cons_of_ok hpi
    (evaluateAll_cons_of_ok (evaluate_of_bound hm ⟨6, 7⟩) (evaluateAll_nil env))
  have he : (runFirst env "(* pi m)").outcome = .error e := by
    rw [runFirst_of_read hcall, evaluate_call_of_ok rfl hstar hoperands]
    rfl
  exact ⟨he, (error_points_into_text (.all _ .standard) _).1 e he⟩

end MiniLisp
