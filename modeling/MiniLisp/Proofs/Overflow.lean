import MiniLisp.Proofs.Sequencing
import MiniLisp.Proofs.Values

/-!
# Overflow: where numbers stop being finite

What is read as a number is finite, but a product of two finite numbers need not be. This file fixes that
nothing else makes a number that is not finite, and what becomes of one:

* `Node.IsFiniteValue`: a finite number or a built-in procedure;
* `Overflows`, `OverflowsAll`: an evaluation comes to a multiplication of two finite numbers whose product is
  not finite;
* `Evaluates.keeps_finite`: **an evaluation that does not overflow keeps all numbers finite**. One rule makes
  new numbers, and all others hand on what they are given. So do forms, texts (`Request.keeps_finite`) and
  sessions (`Session.keeps_finite`);
* `readText_text`, `readText_text_of_not_isFinite`: a number is read again from its text exactly if it is
  finite. What is not finite is written as a word, and that is a symbol;
* `texts_reach_not_finite`: texts can bind and return what is not finite;
* **`numbers_are_finite_up_to_overflow`**: the result.
-/

namespace MiniLisp

variable {ω : Type}

/-! ## 1. Finite values -/

/-- A finite number or a built-in procedure. -/
inductive Node.IsFiniteValue : Node ω → Prop
  | number {x : Float} (finite : x.isFinite = true) (span : Span) : IsFiniteValue (.number x span)
  | procedure {p : Procedure ω} (builtin : p.Builtin) (span : Span) : IsFiniteValue (.procedure p span)

namespace Node

theorem IsFiniteValue.withSpan {n : Node ω} (h : n.IsFiniteValue) (s : Span) :
    (n.withSpan s).IsFiniteValue := by
  cases h with
  | number finite _ => exact .number finite s
  | procedure builtin _ => exact .procedure builtin s

theorem IsFiniteValue.isFinite {x : Float} {s : Span} (h : (Node.number x s : Node ω).IsFiniteValue) :
    x.isFinite = true := by
  cases h with
  | number finite _ => exact finite

theorem IsFiniteValue.builtin {p : Procedure ω} {s : Span} (h : (Node.procedure p s).IsFiniteValue) :
    p.Builtin := by
  cases h with
  | procedure builtin _ => exact builtin

theorem Readable.isFinite {x : Float} {s : Span} (h : (Node.number x s : Node ω).Readable) :
    x.isFinite = true := by
  cases h with
  | number _ _ finite => exact finite

end Node

theorem Environment.finite_standard : (standard : Environment ω).Binds Node.IsFiniteValue := by
  have hempty : (empty : Environment ω).Binds Node.IsFiniteValue := by
    intro name value h
    rw [get?_empty] at h
    cases h
  exact ((hempty.define "pi" (.number (by decide +kernel) _)).define "*" (.procedure .multiply _)).define
    sequenceName (.procedure .sequence _)

/-- What a head that can be read calls is built in, where all values are. -/
theorem Calls.builtin {env : Environment ω} (henv : env.Binds Node.IsFiniteValue) {head : Node ω}
    (hhead : head.Readable) {p : Procedure ω} (h : Calls env head p) : p.Builtin := by
  cases h with
  | name _ _ bound => exact (henv _ _ bound).builtin
  | procedure p span => exact absurd hhead (Node.not_readable_procedure p span)

/-! ## 2. Evaluations that overflow -/

section Evaluating

variable [Operation ω]

mutual

/-- The evaluation of a node comes to a multiplication of finite numbers whose product is not finite. -/
inductive Overflows : Environment ω → Node ω → Prop
  | product {env after : Environment ω} {head : Node ω} {operands : List (Node ω)} {x y : Float} {s t : Span}
      (span : Span) (hp : Calls env head (.binary Environment.multiply "*"))
      (hargs : EvaluatesAll env operands (.ok [.number x s, .number y t]) after)
      (hx : x.isFinite = true) (hy : y.isFinite = true)
      (h : (Environment.multiply x y).isFinite = false) : Overflows env (.list (head :: operands) span)
  | definition {env : Environment ω} {expression : Node ω} (place : Span) (name : String) (t span : Span)
      (h : Overflows env expression) :
      Overflows env (.list [.symbol defineWord place, .symbol name t, expression] span)
  | operand {env : Environment ω} {head : Node ω} {p : Procedure ω} {operands : List (Node ω)}
      (span : Span) (hp : Calls env head p) (h : OverflowsAll env operands) :
      Overflows env (.list (head :: operands) span)

/-- The evaluation of one of several nodes does, and those before it have values. -/
inductive OverflowsAll : Environment ω → List (Node ω) → Prop
  | first {env : Environment ω} {n : Node ω} (rest : List (Node ω)) (h : Overflows env n) :
      OverflowsAll env (n :: rest)
  | rest {env after : Environment ω} {n value : Node ω} {rest : List (Node ω)}
      (hn : Evaluates env n (.ok value) after) (h : OverflowsAll after rest) : OverflowsAll env (n :: rest)

end

/-- Definitions overflow where their expressions do. -/
theorem overflows_define_iff {env : Environment ω} {place t span : Span} {name : String} {expression : Node ω} :
    Overflows env (.list [.symbol defineWord place, .symbol name t, expression] span) ↔
      Overflows env expression := by
  refine ⟨fun h => ?_, .definition place name t span⟩
  cases h with
  | product _ hp => exact absurd hp.isDefine_eq_false (by simp [Node.isDefine])
  | definition _ _ _ _ h => exact h
  | operand _ hp => exact absurd hp.isDefine_eq_false (by simp [Node.isDefine])

theorem not_overflows_symbol (env : Environment ω) (name : String) (s : Span) :
    ¬ Overflows env (.symbol name s) := nofun

/-- Nodes overflow where the first of them does, or the others where it has left off. -/
theorem overflowsAll_cons_iff {env after : Environment ω} {n value : Node ω} {rest : List (Node ω)}
    (hn : Evaluates env n (.ok value) after) :
    OverflowsAll env (n :: rest) ↔ Overflows env n ∨ OverflowsAll after rest := by
  constructor
  · intro h
    cases h with
    | first _ h => exact .inl h
    | rest hother h =>
      obtain ⟨_, rfl⟩ := hn.ends
      obtain ⟨_, rfl⟩ := hother.ends
      exact .inr h
  · intro h
    rcases h with h | h
    · exact .first rest h
    · exact .rest hn h

/-- A call of the multiplication with two finite numbers overflows where an operand does, or the product. -/
theorem overflows_product_iff {env after : Environment ω} {head : Node ω} {operands : List (Node ω)}
    {x y : Float} {s t : Span} (hp : Calls env head (.binary Environment.multiply "*"))
    (hargs : EvaluatesAll env operands (.ok [.number x s, .number y t]) after) (hx : x.isFinite = true)
    (hy : y.isFinite = true) (span : Span) :
    Overflows env (.list (head :: operands) span) ↔
      OverflowsAll env operands ∨ (Environment.multiply x y).isFinite = false := by
  constructor
  · intro h
    cases h with
    | product _ _ hother _ _ h =>
      -- the operands have these two values and no others
      have hsame := hargs.ends.1.symm.trans hother.ends.1
      cases hsame
      exact .inr h
    | definition place name t _ h => exact absurd hp.isDefine_eq_false (by simp [Node.isDefine])
    | operand _ _ h => exact .inl h
  · intro h
    rcases h with h | h
    · exact .operand span hp h
    · exact .product span hp hargs hx hy h

/-- The product of two names overflows exactly if that of their numbers is not finite. -/
theorem overflows_product_of_names_iff {env : Environment ω} {place : Span}
    (hstar : env.get? "*" = some (.procedure (.binary Environment.multiply "*") place))
    {name other : String} {x y : Float} {s t : Span} (hname : env.get? name = some (.number x s))
    (hother : env.get? other = some (.number y t)) (hx : x.isFinite = true) (hy : y.isFinite = true)
    (head first second span : Span) :
    Overflows env (.list [.symbol "*" head, .symbol name first, .symbol other second] span) ↔
      (Environment.multiply x y).isFinite = false := by
  have hfirst : Evaluates env (.symbol name first) (.ok (.number x s)) env := .bound first hname
  have hsecond : Evaluates env (.symbol other second) (.ok (.number y t)) env := .bound second hother
  rw [overflows_product_iff (.name head (by decide) hstar) (.cons hfirst (.cons hsecond .nil)) hx hy,
    overflowsAll_cons_iff hfirst, overflowsAll_cons_iff hsecond]
  refine or_iff_right fun h => ?_
  rcases h with h | h | h <;> cases h

/-- What built-in procedures make of finite values is finite, unless a product is not. -/
theorem Applies.isFiniteValue {p : Procedure ω} {args : List (Node ω)} {span : Span} {value : Node ω}
    (h : Applies p args span (.ok value)) (hp : p.Builtin) (hargs : ∀ arg ∈ args, arg.IsFiniteValue)
    (hproduct : ∀ x y s t, p = .binary Environment.multiply "*" → args = [.number x s, .number y t] →
      x.isFinite = true → y.isFinite = true → (Environment.multiply x y).isFinite = true) :
    value.IsFiniteValue := by
  cases hp with
  | multiply =>
    cases h with
    | numbers _ _ x y s t =>
      have hx : (Node.number x s : Node ω).IsFiniteValue := hargs _ (by simp)
      have hy : (Node.number y t : Node ω).IsFiniteValue := hargs _ (by simp)
      exact .number (hproduct x y s t rfl rfl hx.isFinite hy.isFinite) span
  | sequence =>
    cases h with
    | last _ args => exact hargs value (List.mem_append_right args List.mem_cons_self)

mutual

/-- **An evaluation that does not overflow keeps all numbers finite**, of a node ... -/
theorem Evaluates.keeps_finite {env after : Environment ω} {n : Node ω}
    {outcome : Except (EvalError ω) (Node ω)} (h : Evaluates env n outcome after)
    (henv : env.Binds Node.IsFiniteValue) (hn : n.Readable) (hno : ¬ Overflows env n) :
    after.Binds Node.IsFiniteValue ∧ ∀ value, outcome = .ok value → value.IsFiniteValue := by
  cases h with
  | number x span => exact ⟨henv, fun _ heq => Except.ok.inj heq ▸ .number hn.isFinite span⟩
  | procedure p span => exact absurd hn (Node.not_readable_procedure p span)
  | bound span h => exact ⟨henv, fun _ heq => Except.ok.inj heq ▸ henv _ _ h⟩
  | unbound span h => exact ⟨henv, nofun⟩
  | empty span => exact ⟨henv, nofun⟩
  | defineCount place span h => exact ⟨henv, nofun⟩
  | defineTarget place expression span h => exact ⟨henv, nofun⟩
  | define place name t span h =>
    obtain ⟨hafter, hvalue⟩ := h.keeps_finite henv (hn.items _ (by simp)) fun ho =>
      hno (.definition place name t span ho)
    exact ⟨hafter.define name (hvalue _ rfl), hvalue⟩
  | defineFails place name t span h =>
    obtain ⟨hafter, _⟩ := h.keeps_finite henv (hn.items _ (by simp)) fun ho =>
      hno (.definition place name t span ho)
    exact ⟨hafter, nofun⟩
  | headUnbound place operands span hname h => exact ⟨henv, nofun⟩
  | headValue place operands span hname h hvalue => exact ⟨henv, nofun⟩
  | headOther operands span hsymbol hprocedure => exact ⟨henv, nofun⟩
  | call hp hargs happlies =>
    obtain ⟨hhead, hoperands⟩ := List.forall_mem_cons.mp hn.items
    obtain ⟨hafter, hvalues⟩ := hargs.keeps_finite henv hoperands fun ho => hno (.operand _ hp ho)
    refine ⟨hafter, ?_⟩
    rintro value rfl
    refine happlies.isFiniteValue (hp.builtin henv hhead) (hvalues _ rfl) ?_
    rintro x y s t rfl rfl hx hy
    -- this is the only rule that makes a new number
    exact Bool.of_not_eq_false fun hproduct => hno (.product _ hp hargs hx hy hproduct)
  | callFails span hp hargs =>
    obtain ⟨_, hoperands⟩ := List.forall_mem_cons.mp hn.items
    obtain ⟨hafter, _⟩ := hargs.keeps_finite henv hoperands fun ho => hno (.operand _ hp ho)
    exact ⟨hafter, nofun⟩

/-- ... and of several. -/
theorem EvaluatesAll.keeps_finite {env after : Environment ω} {operands : List (Node ω)}
    {outcome : Except (EvalError ω) (List (Node ω))} (h : EvaluatesAll env operands outcome after)
    (henv : env.Binds Node.IsFiniteValue) (hn : ∀ n ∈ operands, n.Readable)
    (hno : ¬ OverflowsAll env operands) :
    after.Binds Node.IsFiniteValue ∧
      ∀ values, outcome = .ok values → ∀ value ∈ values, value.IsFiniteValue := by
  cases h with
  | nil => exact ⟨henv, fun _ heq => Except.ok.inj heq ▸ nofun⟩
  | cons h hrest =>
    obtain ⟨hfirst, hothers⟩ := List.forall_mem_cons.mp hn
    obtain ⟨hmiddle, hvalue⟩ := h.keeps_finite henv hfirst fun ho => hno (.first _ ho)
    obtain ⟨hafter, hvalues⟩ := hrest.keeps_finite hmiddle hothers fun ho => hno (.rest h ho)
    refine ⟨hafter, fun _ heq => Except.ok.inj heq ▸ ?_⟩
    exact List.forall_mem_cons.mpr ⟨(hvalue _ rfl).withSpan _, hvalues _ rfl⟩
  | firstFails rest h =>
    obtain ⟨hafter, _⟩ := h.keeps_finite henv (List.forall_mem_cons.mp hn).1 fun ho => hno (.first _ ho)
    exact ⟨hafter, nofun⟩
  | restFails h hrest =>
    obtain ⟨hfirst, hothers⟩ := List.forall_mem_cons.mp hn
    obtain ⟨hmiddle, _⟩ := h.keeps_finite henv hfirst fun ho => hno (.first _ ho)
    obtain ⟨hafter, _⟩ := hrest.keeps_finite hmiddle hothers fun ho => hno (.rest h ho)
    exact ⟨hafter, nofun⟩

end

/-! ## 3. Texts and sessions -/

/-- Forms that do not overflow keep all numbers finite, one after the other. -/
theorem evaluateForms_keeps_finite {forms : List (Node ω)} (hforms : ∀ form ∈ forms, form.Readable)
    {env : Environment ω} (henv : env.Binds Node.IsFiniteValue) {last : Option (Node ω)}
    (hlast : ∀ value ∈ last, value.IsFiniteValue) (hno : ¬ OverflowsAll env forms) :
    (evaluateForms env last forms).env.Binds Node.IsFiniteValue ∧
      ∀ found, (evaluateForms env last forms).outcome = .ok found →
        ∀ value ∈ found, value.IsFiniteValue := by
  induction forms generalizing env last with
  | nil => exact ⟨henv, fun _ heq => Except.ok.inj heq ▸ hlast⟩
  | cons form rest ih =>
    obtain ⟨hform, hrest⟩ := List.forall_mem_cons.mp hforms
    have hevaluates := evaluates_law.evaluate env form
    obtain ⟨hafter, hvalue⟩ := hevaluates.keeps_finite henv hform fun ho => hno (.first rest ho)
    rw [evaluateForms]
    cases houtcome : (evaluate env form).outcome with
    | error cause =>
      rw [Run.andThen_of_error houtcome]
      refine ⟨hafter, fun found heq => ?_⟩
      cases heq
    | ok value =>
      rw [houtcome] at hevaluates
      rw [Run.andThen_of_ok houtcome]
      exact ih hrest hafter (fun _ hmem => Option.some.inj hmem ▸ hvalue value houtcome) fun ho =>
        hno (.rest hevaluates ho)

/-- A text to run. -/
inductive Request.IsText : Request ω → Prop
  | first (text : String) : IsText (.first text)
  | all (text : String) : IsText (.all text)

/-- What is evaluated for a request overflows. -/
def Request.Overflows (env : Environment ω) : Request ω → Prop
  | node n => MiniLisp.Overflows env n
  | first text => ∃ form, readText text = .ok form ∧ MiniLisp.Overflows env form
  | all text => ∃ forms, readAll (tokenize text) = .ok forms ∧ OverflowsAll env forms

/-- What a text that can be read comes to, and leaves. -/
theorem ends_of_readText (env : Environment ω) {text : String} {form : Node ω}
    (h : readText text = .ok form) :
    (runFirst env text).outcome = (evaluate env form).outcome.mapError .eval ∧
      (runFirst env text).env = (evaluate env form).env := by
  rw [runFirst_of_read h]
  exact ⟨Run.outcome_mapError _ _, Run.env_mapError _ _⟩

/-- A text whose form has a value by the rules has it, too. -/
theorem Request.ends_of_evaluates {env after : Environment ω} {text : String} {form value : Node ω}
    (hread : readText text = .ok form) (h : Evaluates env form (.ok value) after) :
    ((Request.first text).run env).Ends (.ok (some value)) after := by
  obtain ⟨houtcome, hleft⟩ := ends_of_readText env hread
  obtain ⟨hvalue, rfl⟩ := h.ends
  rw [hvalue] at houtcome
  rw [run, Run.andThen_of_ok houtcome, hleft]
  exact ⟨rfl, rfl⟩

/-- **A text that does not overflow keeps all numbers finite.** -/
theorem Request.keeps_finite {env : Environment ω} (henv : env.Binds Node.IsFiniteValue)
    {request : Request ω} (htext : request.IsText) (hno : ¬ request.Overflows env) :
    (request.run env).env.Binds Node.IsFiniteValue ∧
      ∀ found, (request.run env).outcome = .ok found → ∀ value ∈ found, value.IsFiniteValue := by
  cases htext with
  | first text =>
    rw [run, Run.env_andThen_done]
    suffices h : (runFirst env text).env.Binds Node.IsFiniteValue ∧
        ∀ value, (runFirst env text).outcome = .ok value → value.IsFiniteValue by
      refine ⟨h.1, fun found hfound => ?_⟩
      obtain ⟨value, hvalue, hdone⟩ := Run.exists_of_andThen_ok hfound
      cases hdone
      exact fun _ hmem => Option.some.inj hmem ▸ h.2 value hvalue
    cases hread : readText (ω := ω) text with
    | error cause =>
      rw [runFirst_of_unread hread]
      refine ⟨henv, fun found heq => ?_⟩
      cases heq
    | ok form =>
      obtain ⟨houtcome, hleft⟩ := ends_of_readText env hread
      obtain ⟨hafter, hvalue⟩ := (evaluates_law.evaluate env form).keeps_finite henv
        (readText_readable hread) fun ho => hno ⟨form, hread, ho⟩
      rw [houtcome, hleft]
      refine ⟨hafter, fun value heq => hvalue value ?_⟩
      generalize (evaluate env form).outcome = outcome at heq ⊢
      cases outcome with
      | error cause => cases heq
      | ok found => exact congrArg Except.ok (Except.ok.inj heq)
  | all text =>
    show (runAll env text).env.Binds Node.IsFiniteValue ∧
      ∀ found, (runAll env text).outcome = .ok found → ∀ value ∈ found, value.IsFiniteValue
    cases hread : readAll (ω := ω) (tokenize text) with
    | error cause =>
      rw [runAll_of_unread hread]
      refine ⟨henv, fun found heq => ?_⟩
      cases heq
    | ok forms =>
      have hnone : ∀ value ∈ (none : Option (Node ω)), value.IsFiniteValue := fun _ hmem => by cases hmem
      obtain ⟨hafter, hvalue⟩ := evaluateForms_keeps_finite (readAll_readable hread) henv hnone fun ho =>
        hno ⟨forms, hread, ho⟩
      rw [env_runAll_of_read hread]
      exact ⟨hafter, fun found hfound => hvalue found ((outcome_runAll_eq_ok_iff hread).mp hfound)⟩

/-- **A session of texts that do not overflow binds and returns finite numbers alone.** -/
theorem Session.keeps_finite {requests : List (Request ω)} (htexts : ∀ request ∈ requests, request.IsText)
    (session : Session ω) (henv : session.env.Binds Node.IsFiniteValue)
    (hno : ∀ before request after, requests = before ++ request :: after →
      ¬ request.Overflows (session.serveAll before).env) :
    (session.serveAll requests).env.Binds Node.IsFiniteValue ∧
      ∀ before request after, requests = before ++ request :: after →
        ∀ found, (request.run (session.serveAll before).env).outcome = .ok found →
          ∀ value ∈ found, value.IsFiniteValue := by
  induction requests generalizing session with
  | nil => exact ⟨henv, fun before request after heq => absurd heq (by simp)⟩
  | cons request requests ih =>
    obtain ⟨htext, htexts⟩ := List.forall_mem_cons.mp htexts
    obtain ⟨hafter, hvalue⟩ := Request.keeps_finite henv htext (hno [] request requests rfl)
    obtain ⟨hlast, hvalues⟩ := ih htexts (session.serve request) hafter
      fun before next after heq => hno (request :: before) next after (congrArg (request :: ·) heq)
    refine ⟨hlast, fun before next after heq => ?_⟩
    cases before with
    | nil =>
      obtain ⟨rfl, _⟩ := List.cons.inj heq
      exact hvalue
    | cons first before =>
      obtain ⟨rfl, hrest⟩ := List.cons.inj heq
      exact hvalues before next after hrest

end Evaluating

/-! ## 4. Numbers and their texts -/

/-- What is not finite is written as a word. -/
theorem Number.text_of_not_isFinite {x : Float} (h : x.isFinite = false) :
    text x = "inf" ∨ text x = "-inf" ∨ text x = "NaN" := by
  have hle : Double.infinityBits ≤ x.toBits.toNat % Double.signBit := by
    rw [← Nat.not_lt, ← Double.isFinite_iff, h]
    exact Bool.false_ne_true
  unfold text
  dsimp only
  split
  · exact .inr (.inr rfl)
  · rename_i hlt
    have hbits : magnitudeChars (x.toBits.toNat % Double.signBit) = "inf".toList :=
      if_pos (Nat.le_antisymm (Nat.not_lt.mp hlt) hle)
    rw [hbits]
    split
    · exact .inr (.inl rfl)
    · exact .inl rfl

/-- What is not finite is not read again as a number: its text is a symbol. -/
theorem readText_text_of_not_isFinite {x : Float} (h : x.isFinite = false) :
    readText (Number.text x) =
      .ok (.symbol (Number.text x) ⟨0, (Number.text x).utf8ByteSize⟩ : Node ω) := by
  rcases Number.text_of_not_isFinite h with htext | htext | htext <;>
    · rw [htext]
      rfl

/-- **A finite number is read again from its text.** -/
theorem readText_text {x : Float} (h : x.isFinite = true) :
    readText (Number.text x) = .ok (.number x ⟨0, (Number.text x).utf8ByteSize⟩ : Node ω) := by
  have hspells := spells_atom (ω := ω) (Number.toList_text_ne_nil h) (fun c => isAtomChar_of_mem_text h) 0
  have hread := congrArg Prod.fst (readOne_of_spells hspells [])
  have hatom : ∀ span, (Node.ofAtom (Number.text x) span : Node ω) = .number x span := by
    intro span
    rw [Node.ofAtom, Number.finite?_text h]
  rw [List.append_nil, hatom, byteLength_toList, Nat.zero_add] at hread
  exact hread

section Overflowing

variable [Operation ω] {env : Environment ω}

theorem evaluates_atom {text : String} {x : Float} (h : Number.finite? text = some x) (s : Span) :
    Evaluates env (.ofAtom text s) (.ok (.number x s)) env := by
  rw [Node.ofAtom, h]
  exact .number x s

theorem evaluates_product {place : Span}
    (hstar : env.get? "*" = some (.procedure (.binary Environment.multiply "*") place))
    {a b : Node ω} {x y : Float} {t u : Span} (ha : Evaluates env a (.ok (.number x t)) env)
    (hb : Evaluates env b (.ok (.number y u)) env) (s span : Span) :
    Evaluates env (.list [.symbol "*" s, a, b] span)
      (.ok (.number (Environment.multiply x y) span)) env :=
  .call (.name s (by decide) hstar) (.cons ha (.cons hb .nil)) (.numbers _ _ x y _ _ span)

end Overflowing

/-- A power of ten whose square is beyond the range of doubles. -/
def large : Float := Double.ofBits false (Number.magnitudeBits (.finite ⟨1, 200⟩))

/-- **Texts can bind and return numbers that are not finite.** The square of a large number is an infinity,
    and no number any more when it is multiplied by zero. -/
theorem texts_reach_not_finite :
    let bound := (runFirst (Environment.standard : Environment Empty)
      "(begin (define x (* (* 1e200 1e200) 0)) 1)").env
    let product := (runFirst (Environment.standard : Environment Empty) "(* 1e200 1e200)").outcome
    (bound.Reachable ∧ ∃ x s, bound.get? "x" = some (.number x s) ∧ x.isFinite = false) ∧
      ∃ x s, product = .ok (.number x s) ∧ x.isFinite = false ∧
        readText (Number.text x) = .ok (.symbol "inf" ⟨0, 3⟩ : Node Empty) := by
  intro bound product
  have hlarge : Number.finite? "1e200" = some large := by decide +kernel
  have hsquare : ∀ s t u span, Evaluates (ω := Empty) .standard
      (.list [.symbol "*" s, .ofAtom "1e200" t, .ofAtom "1e200" u] span)
      (.ok (.number (Environment.multiply large large) span)) .standard := fun s t u span =>
    evaluates_product Environment.get?_standard_multiply (evaluates_atom hlarge t)
      (evaluates_atom hlarge u) s span
  constructor
  · have hread : readText (ω := Empty) "(begin (define x (* (* 1e200 1e200) 0)) 1)" =
        .ok (.list [.symbol "begin" ⟨1, 6⟩, .list [.symbol defineWord ⟨8, 14⟩, .symbol "x" ⟨15, 16⟩,
          .list [.symbol "*" ⟨18, 19⟩, .list [.symbol "*" ⟨21, 22⟩, .ofAtom "1e200" ⟨23, 28⟩,
            .ofAtom "1e200" ⟨29, 34⟩] ⟨20, 35⟩, .ofAtom "0" ⟨36, 37⟩] ⟨17, 38⟩] ⟨7, 39⟩,
          .ofAtom "1" ⟨40, 41⟩] ⟨0, 42⟩) := by
      rfl
    have hzero : Number.finite? "0" = some 0 := by decide +kernel
    have hone : Number.finite? "1" = some 1 := by decide +kernel
    obtain ⟨_, henv⟩ := (Evaluates.call (.name ⟨1, 6⟩ (by decide) Environment.get?_standard_sequence)
      (.cons (.define ⟨8, 14⟩ "x" ⟨15, 16⟩ ⟨7, 39⟩
        (evaluates_product Environment.get?_standard_multiply (hsquare ⟨21, 22⟩ ⟨23, 28⟩ ⟨29, 34⟩ ⟨20, 35⟩)
          (evaluates_atom hzero ⟨36, 37⟩) ⟨18, 19⟩ ⟨17, 38⟩))
        (.cons (evaluates_atom hone ⟨40, 41⟩) .nil))
      (.last "begin" [_] _ ⟨0, 42⟩)).ends
    refine ⟨.first _ .standard, Environment.multiply (Environment.multiply large large) 0, ⟨17, 38⟩, ?_, ?_⟩
    · show (runFirst _ _).env.get? "x" = _
      rw [(ends_of_readText _ hread).2, henv, Environment.get?_define_self]
    · decide +kernel
  · have hread : readText (ω := Empty) "(* 1e200 1e200)" = .ok (.list [.symbol "*" ⟨1, 2⟩,
        .ofAtom "1e200" ⟨3, 8⟩, .ofAtom "1e200" ⟨9, 14⟩] ⟨0, 15⟩) := by
      rfl
    have hnot : (Environment.multiply large large).isFinite = false := by decide +kernel
    have htext : Number.text (Environment.multiply large large) = "inf" := by decide +kernel
    refine ⟨Environment.multiply large large, ⟨0, 15⟩, ?_, hnot, ?_⟩
    · show (runFirst _ _).outcome = _
      rw [(ends_of_readText _ hread).1, (hsquare _ _ _ _).ends.1]
      rfl
    · rw [htext]
      rfl

/-- **Numbers are finite up to the first product that is not.** In a session of texts in which no
    multiplication of finite numbers overflows, every number that is bound and every number that is returned
    is finite. A finite number is read again from its text and is its own value, in any environment, and its
    text leaves that as it was. What is not finite is read from its text as a symbol. -/
theorem numbers_are_finite_up_to_overflow [Operation ω] :
    (∀ requests : List (Request ω), (∀ request ∈ requests, request.IsText) →
      (∀ before request after, requests = before ++ request :: after →
        ¬ request.Overflows ((Session.start .standard).serveAll before).env) →
      (∀ name x s, ((Session.start .standard).serveAll requests).env.get? name = some (.number x s) →
        x.isFinite = true) ∧
      ∀ before request after, requests = before ++ request :: after → ∀ x s,
        (request.run ((Session.start .standard).serveAll before).env).outcome = .ok (some (.number x s)) →
        x.isFinite = true) ∧
    (∀ (x : Float) (env : Environment ω), x.isFinite = true →
      (runFirst env (Number.text x)).outcome = .ok (.number x ⟨0, (Number.text x).utf8ByteSize⟩) ∧
        (runFirst env (Number.text x)).env = env) ∧
    ∀ x : Float, x.isFinite = false →
      readText (Number.text x) = .ok (.symbol (Number.text x) ⟨0, (Number.text x).utf8ByteSize⟩ : Node ω) := by
  refine ⟨fun requests htexts hno => ?session, fun x env h => ?finite,
    fun x h => readText_text_of_not_isFinite h⟩
  case session =>
    have hkeeps := Session.keeps_finite htexts (Session.start .standard) Environment.finite_standard hno
    refine ⟨fun name x s hget => (hkeeps.1 name _ hget).isFinite, fun before request after heq x s hvalue => ?_⟩
    exact (hkeeps.2 before request after heq _ hvalue _ rfl).isFinite
  case finite =>
    obtain ⟨houtcome, henv⟩ := ends_of_readText env (readText_text (ω := ω) h)
    rw [houtcome, henv, evaluate_number]
    exact ⟨rfl, rfl⟩

/-- A square of a name that is bound before: no product on the way is too large, so it is finite. It is read again
    from its text, and the square of a large number is read from its text as a symbol. -/
theorem numbers_are_finite_up_to_overflow_of_square :
    let requests : List (Request Empty) := [.all "(define r pi)", .first "(* r r)"]
    let env : Environment Empty := ((Session.start .standard).serveAll requests).env
    let middle : Environment Empty := ((Session.start .standard).serveAll [.all "(define r pi)"]).env
    let square := Environment.multiply Environment.pi Environment.pi
    let huge := Environment.multiply large large
    (∀ request ∈ requests, request.IsText) ∧
      (∀ before request after, requests = before ++ request :: after →
        ¬ request.Overflows ((Session.start .standard).serveAll before).env) ∧
      (∀ name x s, env.get? name = some (.number x s) → x.isFinite = true) ∧
      (((Request.first "(* r r)").run middle).outcome = .ok (some (.number square ⟨0, 7⟩)) ∧
        square.isFinite = true) ∧
      (runFirst env (Number.text square)).outcome =
        .ok (.number square ⟨0, (Number.text square).utf8ByteSize⟩) ∧
      huge.isFinite = false ∧ readText (Number.text huge) =
        .ok (.symbol (Number.text huge) ⟨0, (Number.text huge).utf8ByteSize⟩ : Node Empty) := by
  intro requests env middle square huge
  let pi : Node Empty := .number Environment.pi Span.nowhere
  have hpi : Environment.pi.isFinite = true := by decide +kernel
  have hdefinition : readAll (ω := Empty) (tokenize "(define r pi)") =
      .ok [.list [.symbol defineWord ⟨1, 7⟩, .symbol "r" ⟨8, 9⟩, .symbol "pi" ⟨10, 12⟩] ⟨0, 13⟩] := rfl
  have hproduct : readText (ω := Empty) "(* r r)" =
      .ok (.list [.symbol "*" ⟨1, 2⟩, .symbol "r" ⟨3, 4⟩, .symbol "r" ⟨5, 6⟩] ⟨0, 7⟩) := rfl
  have hmiddle : middle = Environment.standard.define "r" pi := by
    simp only [middle, Session.serveAll, List.foldl, Session.serve, Session.start, Request.run,
      runAll_of_alias hdefinition Environment.get?_standard_pi]
    rfl
  have hr : middle.get? "r" = some pi := by
    rw [hmiddle, Environment.get?_define_self]
  have hstar : middle.get? "*" = some (.procedure (.binary Environment.multiply "*") Span.nowhere) := by
    rw [hmiddle, Environment.get?_define_of_ne (by decide), Environment.get?_standard_multiply]
  have hsquare : square.isFinite = true := by decide +kernel
  have hno : ∀ before request after, requests = before ++ request :: after →
      ¬ request.Overflows ((Session.start .standard).serveAll before).env := by
    intro before request after heq
    rcases before with _ | ⟨first, _ | ⟨second, before⟩⟩
    · obtain ⟨rfl, _⟩ := List.cons.inj heq
      rintro ⟨forms, hforms, ho⟩
      cases hdefinition.symm.trans hforms
      have hform : Evaluates .standard _ (.ok pi) _ :=
        .define ⟨1, 7⟩ "r" ⟨8, 9⟩ ⟨0, 13⟩ (.bound ⟨10, 12⟩ Environment.get?_standard_pi)
      rcases (overflowsAll_cons_iff hform).mp ho with ho | ho
      · exact not_overflows_symbol _ _ _ (overflows_define_iff.mp ho)
      · cases ho
    · obtain ⟨rfl, hrest⟩ := List.cons.inj heq
      obtain ⟨rfl, _⟩ := List.cons.inj hrest
      rintro ⟨form, hform, ho⟩
      cases hproduct.symm.trans hform
      have hnot := (overflows_product_of_names_iff hstar hr hr hpi hpi ⟨1, 2⟩ ⟨3, 4⟩ ⟨5, 6⟩ ⟨0, 7⟩).mp ho
      exact absurd (hnot.symm.trans hsquare) Bool.false_ne_true
    · exact absurd (congrArg List.length heq) (by simp [requests])
  obtain ⟨hsession, hagain, hword⟩ := numbers_are_finite_up_to_overflow (ω := Empty)
  have htexts : ∀ request ∈ requests, request.IsText :=
    List.forall_mem_cons.mpr ⟨.all _, List.forall_mem_singleton.mpr (.first _)⟩
  obtain ⟨hbound, hreturned⟩ := hsession requests htexts hno
  have hends := Request.ends_of_evaluates hproduct
    (evaluates_product hstar (.bound ⟨3, 4⟩ hr) (.bound ⟨5, 6⟩ hr) ⟨1, 2⟩ ⟨0, 7⟩)
  have hhuge : huge.isFinite = false := by decide +kernel
  exact ⟨htexts, hno, hbound,
    ⟨hends.1, hreturned [.all "(define r pi)"] (.first "(* r r)") [] rfl _ _ hends.1⟩,
    (hagain square env hsquare).1, hhuge, hword huge hhuge⟩

end MiniLisp
