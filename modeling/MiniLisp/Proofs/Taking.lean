import MiniLisp.Proofs.Reading

/-!
# Taking: what a reader that keeps its place has used up

A reader may be asked for one form after another, and go on after an error. This file fixes which tokens are
gone then:

* `Takes`: what one answer takes from the front. A form takes the tokens that spell it, an excess
  parenthesis takes itself, and a list that is never closed takes everything;
* **`Ask.answer_eq_iff`**: an answer is given exactly where it takes something so;
* `Takings`, **`answers_eq_iff`**: several answers take one part after the other, and nothing between them;
* `readAll_step`: to read all forms is to ask for one after another until the tokens run out or one fails;
* **`answers_partition_tokens`**: the results together.
-/

namespace MiniLisp

variable {ω : Type}

/-! ## 1. One answer -/

/-- What was asked for. -/
def Answer.ask : Answer ω → Ask
  | form _ => .form
  | atEnd _ => .atEnd

/-- The answer takes `taken` from the front, and `left` is left. -/
inductive Takes : Answer ω → (taken left : List Token) → Prop
  | form {n : Node ω} {taken : List Token} (h : Spells [n] taken) (left : List Token) :
      Takes (.form (.ok n)) taken left
  | closing (s : Span) (left : List Token) :
      Takes (.form (.error (.unexpectedClose s))) [⟨.closing, s⟩] left
  | unclosed {s : Span} {more : List Token} (h : ∀ p, p <+: (⟨.opening, s⟩ :: more) → ¬ Balanced p) :
      Takes (.form (.error (.unexpectedEnd .closing))) (⟨.opening, s⟩ :: more) []
  | nothing : Takes (.form (.error (.unexpectedEnd .expression))) [] []
  | atEnd (left : List Token) : Takes (.atEnd left.isEmpty) [] left

/-- **Every question is answered by taking something from the front.** -/
theorem Ask.exists_takes (ask : Ask) (ts : List Token) :
    ∃ taken, ts = taken ++ (ask.answer (ω := ω) ts).2 ∧
      Takes (ask.answer (ω := ω) ts).1 taken (ask.answer (ω := ω) ts).2 := by
  cases ask with
  | atEnd => exact ⟨[], rfl, .atEnd ts⟩
  | form =>
    rcases ts with _ | ⟨⟨lexeme, s⟩, more⟩
    · exact ⟨[], rfl, .nothing⟩
    cases lexeme with
    | atom text => exact ⟨[⟨.atom text, s⟩], rfl, .form (.atom text s .nil) more⟩
    | closing => exact ⟨[⟨.closing, s⟩], rfl, .closing s more⟩
    | opening =>
      simp only [answer]
      rcases readOne_opening (ω := ω) s more with ⟨n, p, rest, hp, _, hn, hr⟩ | ⟨hno, hr⟩
      · rw [hr]
        exact ⟨p, hp, .form hn rest⟩
      · rw [hr]
        exact ⟨⟨.opening, s⟩ :: more, (List.append_nil _).symm, .unclosed hno⟩

/-- **What an answer takes decides the answer.** -/
theorem Takes.answer_eq {a : Answer ω} {taken left : List Token} (h : Takes a taken left) :
    a.ask.answer (taken ++ left) = (a, left) := by
  cases h with
  | form h => simp only [Answer.ask, Ask.answer, readOne_of_spells h]
  | closing s => rfl
  | @unclosed s more h =>
    rcases readOne_opening (ω := ω) s more with ⟨n, p, rest, _, hf, _, _⟩ | ⟨_, hr⟩
    · exact absurd hf.2.1 (h p hf.1)
    · rw [List.append_nil]
      simp only [Answer.ask, Ask.answer, hr]
  | nothing => rfl
  | atEnd => rfl

/-- **An answer is given exactly where it takes something** that stands in front of what is left. -/
theorem Ask.answer_eq_iff {ask : Ask} {ts : List Token} {a : Answer ω} {left : List Token} :
    ask.answer ts = (a, left) ↔ a.ask = ask ∧ ∃ taken, ts = taken ++ left ∧ Takes a taken left := by
  constructor
  · intro h
    obtain ⟨taken, hts, htakes⟩ := ask.exists_takes (ω := ω) ts
    rw [h] at hts htakes
    refine ⟨?_, taken, hts, htakes⟩
    cases ask <;> cases h <;> rfl
  · rintro ⟨rfl, taken, rfl, h⟩
    exact h.answer_eq

/-- Where there is a token, an answer to a question for a form takes one at least. -/
theorem Takes.ne_nil {a : Answer ω} {taken left : List Token} (h : Takes a taken left)
    (hform : a.ask = .form) (hne : taken ++ left ≠ []) : taken ≠ [] := by
  cases h with
  | form h => exact h.balanced.1
  | closing s => exact List.cons_ne_nil _ _
  | unclosed => exact List.cons_ne_nil _ _
  | nothing => exact absurd rfl hne
  | atEnd => cases hform

/-- **As long as there are tokens, asking for a form uses some of them up.** -/
theorem length_readOne_lt {ts : List Token} (h : ts ≠ []) :
    (readOne (ω := ω) ts).2.length < ts.length := by
  obtain ⟨taken, hts, htakes⟩ := Ask.form.exists_takes (ω := ω) ts
  have hpos := List.length_pos_iff.mpr (htakes.ne_nil rfl (hts ▸ h))
  have hlen : ts.length = taken.length + (readOne (ω := ω) ts).2.length := by
    rw [← List.length_append]
    exact congrArg List.length hts
  omega

/-! ## 2. Several answers -/

/-- The answers take the parts, one after the other, and `left` is left. -/
inductive Takings : List (Answer ω) → (parts : List (List Token)) → (left : List Token) → Prop
  | nil (left : List Token) : Takings [] [] left
  | cons {a : Answer ω} {as : List (Answer ω)} {taken : List Token} {parts : List (List Token)}
      {left : List Token} (first : Takes a taken (parts.flatten ++ left)) (rest : Takings as parts left) :
      Takings (a :: as) (taken :: parts) left

theorem answers_cons (ts : List Token) (ask : Ask) (asks : List Ask) :
    answers (ω := ω) ts (ask :: asks) =
      ((ask.answer ts).1 :: (answers (ask.answer (ω := ω) ts).2 asks).1,
        (answers (ω := ω) (ask.answer (ω := ω) ts).2 asks).2) := rfl

/-- **Several questions are answered by taking one part after the other from the front**, and no others. -/
theorem answers_eq_iff {asks : List Ask} {ts : List Token} {as : List (Answer ω)} {left : List Token} :
    answers ts asks = (as, left) ↔
      as.map Answer.ask = asks ∧ ∃ parts, ts = parts.flatten ++ left ∧ Takings as parts left := by
  induction asks generalizing ts as left with
  | nil =>
    constructor
    · intro h
      cases h
      exact ⟨rfl, [], rfl, .nil _⟩
    · rintro ⟨has, parts, rfl, h⟩
      obtain rfl := List.map_eq_nil_iff.mp has
      cases h
      rfl
  | cons ask asks ih =>
    rw [answers_cons]
    constructor
    · intro h
      -- the first answer stands in front of all that the others take, `middle` included
      generalize hfirst : ask.answer ts = r at h
      obtain ⟨a, middle⟩ := r
      generalize hrest : answers middle asks = r at h
      obtain ⟨others, last⟩ := r
      cases h
      obtain ⟨hask, taken, hts, first⟩ := Ask.answer_eq_iff.mp hfirst
      obtain ⟨hasks, parts, rfl, rest⟩ := ih.mp hrest
      refine ⟨?_, taken :: parts, ?_, .cons first rest⟩
      · rw [List.map_cons, hask, hasks]
      · rw [List.flatten_cons, List.append_assoc]
        exact hts
    · rintro ⟨has, parts, rfl, h⟩
      cases h with
      | nil => cases has
      | @cons a as taken parts _ first rest =>
        obtain ⟨rfl, hasks⟩ := List.cons.inj has
        have hfirst := first.answer_eq
        rw [← List.append_assoc, ← List.flatten_cons] at hfirst
        rw [hfirst, ih.mpr ⟨hasks, parts, rfl, rest⟩]

/-- **To ask whether no token is left changes nothing**: the other questions are answered as without it, and
    the same is left. -/
theorem answers_filter_form (ts : List Token) (asks : List Ask) :
    answers (ω := ω) ts (asks.filter (· = .form)) =
      ((answers ts asks).1.filter (·.ask = .form), (answers (ω := ω) ts asks).2) := by
  induction asks generalizing ts with
  | nil => rfl
  | cons ask asks ih =>
    cases ask with
    | atEnd => exact ih ts
    | form =>
      show answers ts (Ask.form :: asks.filter (· = .form)) = _
      rw [answers_cons, ih]
      rfl

/-- As many questions for a form as there are tokens use all of them up. -/
theorem length_answers_le (ts : List Token) (asks : List Ask) :
    (answers (ω := ω) ts asks).2.length ≤ ts.length - asks.count .form := by
  induction asks generalizing ts with
  | nil => exact Nat.le_refl _
  | cons ask asks ih =>
    have hrest := ih (ask.answer (ω := ω) ts).2
    rw [answers_cons]
    cases ask with
    | atEnd => exact hrest
    | form =>
      have hfirst : (Ask.form.answer (ω := ω) ts).2.length ≤ ts.length - 1 := by
        by_cases hts : ts = []
        · rw [hts]
          exact Nat.le_refl 0
        · exact Nat.le_sub_one_of_lt (length_readOne_lt hts)
      show (answers (ω := ω) (Ask.form.answer (ω := ω) ts).2 asks).2.length ≤ _
      rw [List.count_cons_self]
      omega

/-! ## 3. All forms -/

/-- Where nothing from the front is balanced, the list that is begun there is never closed. -/
theorem readAll_of_unbalanced {s : Span} {more : List Token}
    (h : ∀ p, p <+: (⟨.opening, s⟩ :: more) → ¬ Balanced p) :
    (readAll (⟨.opening, s⟩ :: more) : Except ReadError (List (Node ω))) =
      .error (.unexpectedEnd .closing) := by
  have hpos := positive_of_unbalanced h
  refine readAll_of_open (keeps_cons.mpr ⟨Int.le_refl 0, fun p hp => ?_⟩) ?_
  · exact Int.le_of_lt (hpos p hp)
  · rw [depth_cons]
    exact hpos more (List.prefix_refl more)

/-- **To read all forms is to read one after the other** until the tokens run out or one fails. -/
theorem readAll_step {ts : List Token} (h : ts ≠ []) :
    (readAll ts : Except ReadError (List (Node ω))) =
      match readOne ts with
      | (.ok n, left) => (readAll left).map (n :: ·)
      | (.error cause, _) => .error cause := by
  rcases ts with _ | ⟨⟨lexeme, s⟩, more⟩
  · exact absurd rfl h
  cases lexeme with
  | atom text =>
    have hatom : Spells [(.ofAtom text s : Node ω)] [⟨.atom text, s⟩] := .atom text s .nil
    exact readAll_append hatom more
  | closing => rfl
  | opening =>
    rcases readOne_opening (ω := ω) s more with ⟨n, p, rest, hp, _, hn, hr⟩ | ⟨hno, hr⟩
    · rw [hr, hp]
      exact readAll_append hn rest
    · rw [hr]
      exact readAll_of_unbalanced hno

/-- Tokens that spell forms are read form after form, as these forms. -/
theorem answers_of_spells {forms : List (Node ω)} {ts : List Token} (h : Spells forms ts) :
    answers ts (List.replicate forms.length .form) = (forms.map fun n => .form (.ok n), []) := by
  induction forms generalizing ts with
  | nil =>
    cases h
    rfl
  | cons n forms ih =>
    obtain ⟨p, us, rfl, hn, hforms⟩ := h.uncons
    have hfirst : Ask.form.answer (p ++ us) = (.form (.ok n), us) := by
      simp only [Ask.answer, readOne_of_spells hn]
    rw [List.length_cons, List.replicate_succ, answers_cons, hfirst, ih hforms]
    rfl

/-- **A reader that keeps its place takes its tokens part by part.** Its answers to any questions take one
    part after the other, and the rest is left; to ask whether no token is left takes nothing and changes no
    other answer. An expression is missed exactly where nothing is left, and as long as something is, a
    question for a form uses some of it up, so as many questions as there are tokens use up all. Reading all
    forms of what is left is asking on until the first error or the end. Where all forms of the tokens can
    be read, asking as often as there are forms gives these forms and leaves nothing. -/
theorem answers_partition_tokens (ts : List Token) (asks : List Ask) :
    let as : List (Answer ω) := (answers ts asks).1
    let left := (answers (ω := ω) ts asks).2
    (as.map Answer.ask = asks ∧ ∃ parts, ts = parts.flatten ++ left ∧ Takings as parts left) ∧
    answers ts (asks.filter (· = .form)) = (as.filter (·.ask = .form), left) ∧
    (∀ us, ((readOne us).1 = (.error (.unexpectedEnd .expression) : Except ReadError (Node ω)) ↔ us = []) ∧
      (us ≠ [] → (readOne (ω := ω) us).2.length < us.length)) ∧
    (ts.length ≤ asks.count .form → left = []) ∧
    ((readAll [] : Except ReadError (List (Node ω))) = .ok [] ∧
      ∀ us, us ≠ [] → (readAll us : Except ReadError (List (Node ω))) =
        match readOne us with
        | (.ok n, rest) => (readAll rest).map (n :: ·)
        | (.error cause, _) => .error cause) ∧
    ∀ forms : List (Node ω), readAll ts = .ok forms → asks.count .form = forms.length →
      as.filter (·.ask = .form) = forms.map (fun n => .form (.ok n)) ∧ left = [] := by
  intro as left
  have hfilter : answers ts (asks.filter (· = .form)) = (as.filter (·.ask = .form), left) :=
    answers_filter_form ts asks
  refine ⟨answers_eq_iff.mp rfl, hfilter,
    fun us => ⟨readOne_missing_expression_iff us, length_readOne_lt⟩, fun hlen => ?_,
    ⟨rfl, fun us => readAll_step⟩, fun forms hforms hcount => ?_⟩
  · have hle : left.length ≤ ts.length - asks.count .form := length_answers_le ts asks
    exact List.eq_nil_of_length_eq_zero (by omega)
  -- without the questions for the end, the questions are as many for a form as there are forms
  · rw [List.filter_eq, hcount, answers_of_spells (readAll_eq_ok_iff.mp hforms)] at hfilter
    exact ⟨(congrArg Prod.fst hfilter).symm, (congrArg Prod.snd hfilter).symm⟩

end MiniLisp
