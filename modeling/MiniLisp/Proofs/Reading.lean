import MiniLisp.Proofs.Spelling

/-!
# Reading: what is accepted, and what is blamed

The reader nests lists, but what it answers can be said by counting parentheses. Main statements:

* **`readAll_outcome_by_depth`**: all forms are read exactly where the depth never falls below zero
  and ends there; otherwise the first parenthesis below zero is to blame, and only where there is
  none the end of the tokens;
* `readAll_append`: what is read behind complete forms is what is read by itself;
* **`readOne_grammar`**: one form takes the shortest balanced part from the front and nothing else;
  its parentheses are matched inside that part, so what stands behind cannot change it.
-/

namespace MiniLisp

variable {ω : Type}

/-! ## 1. All forms -/

theorem readAll_of_keeps {ts : List Token} (h : Keeps 0 ts) (h0 : depth ts = 0) :
    ∃ forms : List (Node ω), readAll ts = .ok forms := by
  obtain ⟨last, hlast, hlen⟩ := Nest.pushAll_of_keeps (Nest.empty : Nest ω) h
  rw [readAll, hlast]
  obtain ⟨lists, forms⟩ := last
  cases lists with
  | nil => exact ⟨forms.reverse, rfl⟩
  | cons inner outer =>
    rw [h0] at hlen
    simp only [Nest.empty, List.length_cons, List.length_nil] at hlen
    omega

/-- A list that is still open at the end is missed there. -/
theorem readAll_of_open {ts : List Token} (h : Keeps 0 ts) (hd : 0 < depth ts) :
    (readAll ts : Except ReadError (List (Node ω))) = .error (.unexpectedEnd .closing) := by
  obtain ⟨last, hlast, hlen⟩ := Nest.pushAll_of_keeps (Nest.empty : Nest ω) h
  rw [readAll, hlast]
  obtain ⟨lists, forms⟩ := last
  cases lists with
  | nil =>
    simp only [Nest.empty, List.length_nil] at hlen
    omega
  | cons inner outer => rfl

/-- The first parenthesis that closes nothing is to blame, whatever follows. -/
theorem readAll_of_excess {before after : List Token} {t : Token} (h : Keeps 0 before)
    (ht : depth (before ++ [t]) < 0) :
    (readAll (before ++ t :: after) : Except ReadError (List (Node ω))) =
      .error (.unexpectedClose t.span) := by
  have ht' : (Nest.empty : Nest ω).lists.length + depth (before ++ [t]) < 0 := by
    simpa [Nest.empty] using ht
  rw [readAll, Nest.pushAll_of_excess (Nest.empty : Nest ω) h ht']
  rfl

/-- **What reading all forms of any tokens comes to.** They are read exactly where the depth never
    falls below zero and ends there, and the forms are those that the tokens spell. Otherwise the
    first token below zero is to blame, or else the end for a missing `)`; an expression is never
    missed. -/
theorem readAll_outcome_by_depth (ts : List Token) :
    ((∃ forms : List (Node ω), readAll ts = .ok forms) ↔
      (∀ p, p <+: ts → 0 ≤ depth p) ∧ depth ts = 0) ∧
    (∀ forms : List (Node ω), readAll ts = .ok forms ↔ Spells forms ts) ∧
    (∀ before t after, ts = before ++ t :: after → (∀ p, p <+: before → 0 ≤ depth p) →
      depth (before ++ [t]) < 0 →
      (readAll ts : Except ReadError (List (Node ω))) = .error (.unexpectedClose t.span)) ∧
    ((∀ p, p <+: ts → 0 ≤ depth p) → 0 < depth ts →
      (readAll ts : Except ReadError (List (Node ω))) = .error (.unexpectedEnd .closing)) ∧
    (readAll ts : Except ReadError (List (Node ω))) ≠ .error (.unexpectedEnd .expression) := by
  have keeps_zero : ∀ us : List Token, (∀ p, p <+: us → 0 ≤ depth p) → Keeps 0 us := by
    intro us h p hp
    rw [Int.zero_add]
    exact h p hp
  refine ⟨⟨?_, ?_⟩, fun forms => readAll_eq_ok_iff, ?_, ?_, ?_⟩
  · rintro ⟨forms, h⟩
    have h0 := (readAll_eq_ok_iff.mp h).depth_eq_zero
    rcases keeps_or_excess (Int.le_refl 0) ts with hk | ⟨before, t, after, rfl, hk, ht⟩
    · refine ⟨fun p hp => ?_, h0⟩
      have := hk p hp
      omega
    · rw [Int.zero_add] at ht
      rw [readAll_of_excess hk ht] at h
      cases h
  · rintro ⟨hk, h0⟩
    exact readAll_of_keeps (keeps_zero ts hk) h0
  · rintro before t after rfl hk ht
    exact readAll_of_excess (keeps_zero before hk) ht
  · intro hk hd
    exact readAll_of_open (keeps_zero ts hk) hd
  · rcases keeps_or_excess (Int.le_refl 0) ts with hk | ⟨before, t, after, rfl, hk, ht⟩
    · have hend := hk ts (List.prefix_refl ts)
      by_cases h0 : depth ts = 0
      · obtain ⟨forms, h⟩ := readAll_of_keeps (ω := ω) hk h0
        rw [h]
        intro h'
        cases h'
      · rw [readAll_of_open hk (by omega)]
        intro h'
        cases h'
    · rw [Int.zero_add] at ht
      rw [readAll_of_excess hk ht]
      intro h'
      cases h'

/-! ## 2. Behind complete forms -/

namespace Nest

/-- What has been read, with complete forms in front of it. -/
def behind (before : List (Node ω)) (nest : Nest ω) : Nest ω :=
  ⟨nest.lists, nest.forms ++ before.reverse⟩

theorem add_behind (before : List (Node ω)) (nest : Nest ω) (n : Node ω) :
    (nest.behind before).add n = (nest.add n).behind before := by
  obtain ⟨lists, forms⟩ := nest
  cases lists <;> rfl

/-- A token does not look at complete forms. -/
theorem push_behind (before : List (Node ω)) (nest : Nest ω) (t : Token) :
    (nest.behind before).push t = (nest.push t).map (behind before) := by
  obtain ⟨lexeme, s⟩ := t
  cases lexeme with
  | opening => rfl
  | atom text =>
    rw [push_atom, push_atom, add_behind]
    rfl
  | closing =>
    obtain ⟨lists, forms⟩ := nest
    cases lists with
    | nil => rfl
    | cons inner outer => exact congrArg Except.ok (add_behind before ⟨outer, forms⟩ _)

theorem pushAll_behind (before : List (Node ω)) (nest : Nest ω) (ts : List Token) :
    (nest.behind before).pushAll ts = (nest.pushAll ts).map (behind before) := by
  induction ts generalizing nest with
  | nil => rfl
  | cons t ts ih =>
    rw [pushAll, pushAll, push_behind]
    cases nest.push t with
    | error cause => rfl
    | ok next => exact ih next

theorem finish_behind (before : List (Node ω)) (nest : Nest ω) :
    (nest.behind before).finish = nest.finish.map (before ++ ·) := by
  obtain ⟨lists, forms⟩ := nest
  cases lists with
  | nil =>
    show Except.ok (forms ++ before.reverse).reverse = Except.ok (before ++ forms.reverse)
    rw [List.reverse_append, List.reverse_reverse]
  | cons inner outer => rfl

end Nest

/-- **Behind tokens that spell forms, tokens are read as they are by themselves**: as more forms, or with
    the same error. -/
theorem readAll_append {forms : List (Node ω)} {ts : List Token} (h : Spells forms ts)
    (us : List Token) : readAll (ts ++ us) = (readAll us).map (forms ++ ·) := by
  have hnest : (Nest.empty : Nest ω).addAll forms = Nest.empty.behind forms := by
    rw [Nest.empty, Nest.addAll_outside, List.append_nil]
    rfl
  rw [readAll, readAll, Nest.pushAll_of_spells h, hnest, Nest.pushAll_behind]
  cases (Nest.empty : Nest ω).pushAll us with
  | error cause => rfl
  | ok nest => exact nest.finish_behind forms

/-! ## 3. One form -/

/-- Inside an open list the reader goes on over whole items. -/
theorem readUntilForm_of_spells {items : List (Node ω)} {inner : List Token}
    (h : Spells items inner) (l : OpenList ω) (ls : List (OpenList ω)) (forms : List (Node ω))
    (rest : List Token) :
    readUntilForm ⟨l :: ls, forms⟩ (inner ++ rest) =
      readUntilForm ((⟨l :: ls, forms⟩ : Nest ω).addAll items) rest := by
  induction h generalizing l ls forms rest with
  | nil => rfl
  | atom text s _ ih =>
    rw [List.cons_append, readUntilForm, Nest.push_atom, Nest.addAll_cons]
    exact ih _ ls forms rest
  | list o c _ _ ihi ihr =>
    rw [List.cons_append, List.append_assoc, List.cons_append, readUntilForm, Nest.push_opening]
    show readUntilForm ⟨⟨o, []⟩ :: l :: ls, forms⟩ _ = _
    rw [ihi, readUntilForm, Nest.push_closing_addAll (⟨l :: ls, forms⟩ : Nest ω), Nest.addAll_cons]
    exact ihr _ ls forms rest

/-- **Tokens that spell one form are read as this form, whatever follows.** -/
theorem readOne_of_spells {n : Node ω} {p : List Token} (h : Spells [n] p) (rest : List Token) :
    readOne (p ++ rest) = (.ok n, rest) := by
  cases h with
  | atom text s h =>
    cases h
    rfl
  | list o c inside h =>
    cases h
    rw [List.cons_append, List.append_assoc, List.cons_append, readOne, readUntilForm,
      Nest.push_opening]
    show readUntilForm ⟨⟨o, []⟩ :: [], []⟩ _ = _
    rw [readUntilForm_of_spells inside, readUntilForm, Nest.push_closing_addAll ⟨[], []⟩]
    rfl

/-- As long as a list is open, the reader goes on to the end and misses a parenthesis there. -/
theorem readUntilForm_of_open {nest : Nest ω} {ts : List Token}
    (h : ∀ p, p <+: ts → 0 < nest.lists.length + depth p) :
    readUntilForm nest ts = (.error (.unexpectedEnd .closing), []) := by
  induction ts generalizing nest with
  | nil => rfl
  | cons t ts ih =>
    have hstep : 0 < nest.lists.length + t.step := by
      have := h [t] (List.cons_prefix_cons.mpr ⟨rfl, List.nil_prefix⟩)
      simpa using this
    obtain ⟨next, hnext, hlen⟩ := Nest.push_of_nonneg (Int.le_of_lt hstep)
    have hrest : ∀ p, p <+: ts → 0 < next.lists.length + depth p := by
      intro p hp
      have := h (t :: p) (List.cons_prefix_cons.mpr ⟨rfl, hp⟩)
      rw [depth_cons] at this
      omega
    rw [readUntilForm, hnext]
    obtain ⟨lists, forms⟩ := next
    cases lists with
    | nil =>
      simp only [List.length_nil] at hlen
      omega
    | cons inner outer => exact ih hrest

/-- What is balanced for the first time behind an opening parenthesis is one form. -/
theorem exists_spells_of_firstBalance {s : Span} {p more : List Token}
    (h : FirstBalance p (⟨.opening, s⟩ :: more)) : ∃ n : Node ω, Spells [n] p := by
  obtain ⟨forms, hf⟩ := readAll_of_keeps (ω := ω) h.keeps h.2.1.2
  have hs := readAll_eq_ok_iff.mp hf
  cases forms with
  | nil =>
    cases hs
    exact absurd rfl h.2.1.1
  | cons n forms =>
    obtain ⟨q, us, rfl, hq, _⟩ := hs.uncons
    -- `q` is balanced too, and no shorter than the shortest
    have hqp : q <+: q ++ us := List.prefix_append q us
    have hle := (h.2.2 q (hqp.trans h.1) hq.balanced).length_le
    rw [← hqp.eq_of_length_le hle]
    exact ⟨n, hq⟩

/-- Behind an opening parenthesis either the shortest balance is read or everything is gone. -/
theorem readOne_opening (s : Span) (more : List Token) :
    (∃ (n : Node ω) (p rest : List Token), ⟨.opening, s⟩ :: more = p ++ rest ∧
      FirstBalance p (⟨.opening, s⟩ :: more) ∧ Spells [n] p ∧
      readOne (⟨.opening, s⟩ :: more) = (.ok n, rest)) ∨
    ((∀ p, p <+: (⟨.opening, s⟩ :: more) → ¬ Balanced p) ∧
      readOne (⟨.opening, s⟩ :: more) =
        ((.error (.unexpectedEnd .closing), []) : Except ReadError (Node ω) × List Token)) := by
  by_cases h : ∃ p, p <+: (⟨.opening, s⟩ :: more) ∧ Balanced p
  · obtain ⟨q, hq, hb⟩ := h
    obtain ⟨p, hp⟩ := exists_firstBalance hq hb
    obtain ⟨n, hn⟩ := exists_spells_of_firstBalance (ω := ω) hp
    obtain ⟨rest, hrest⟩ := hp.1
    refine Or.inl ⟨n, p, rest, hrest.symm, hp, hn, ?_⟩
    rw [← hrest]
    exact readOne_of_spells hn rest
  · have hno : ∀ p, p <+: (⟨.opening, s⟩ :: more) → ¬ Balanced p := fun p hp hb => h ⟨p, hp, hb⟩
    refine Or.inr ⟨hno, ?_⟩
    rw [readOne, readUntilForm, Nest.push_opening]
    show readUntilForm ⟨⟨s, []⟩ :: [], []⟩ more = _
    refine readUntilForm_of_open fun p hp => ?_
    exact positive_of_unbalanced hno p hp

/-- A form that is read is spelled out by the shortest balanced part from the front. -/
theorem readOne_eq_ok {n : Node ω} {ts rest : List Token} (h : readOne ts = (.ok n, rest)) :
    ∃ p, ts = p ++ rest ∧ FirstBalance p ts ∧ Spells [n] p := by
  rcases ts with _ | ⟨⟨lexeme, s⟩, more⟩
  · cases h
  cases lexeme with
  | closing => cases h
  | atom text =>
    cases h
    refine ⟨[⟨.atom text, s⟩], rfl, ⟨List.prefix_append _ rest, ?_, ?_⟩, .atom text s .nil⟩
    · exact ⟨List.cons_ne_nil _ _, rfl⟩
    · intro q hq hb
      rcases List.prefix_cons_iff.mp hq with rfl | ⟨r, rfl, _⟩
      · exact absurd rfl hb.1
      · exact List.prefix_append _ r
  | opening =>
    rcases readOne_opening (ω := ω) s more with ⟨m, p, us, hp, hf, hs, hr⟩ | ⟨_, hr⟩
    · rw [hr] at h
      cases h
      exact ⟨p, hp, hf, hs⟩
    · rw [hr] at h
      cases h

/-- Nothing is read from less than the shortest balance. -/
theorem readOne_ne_ok_of_proper {m : Node ω} {ts p q rest : List Token}
    (h : FirstBalance p ts) (hq : q <+: p) (hqp : q ≠ p) : readOne q ≠ (.ok m, rest) := by
  intro hr
  obtain ⟨r, _, ⟨hrq, hb, _⟩, _⟩ := readOne_eq_ok hr
  have hle := (h.2.2 r (hrq.trans (hq.trans h.1)) hb).length_le
  exact hqp (hq.eq_of_length_le (Nat.le_trans hle hrq.length_le))

theorem exists_readOne_iff (ts : List Token) :
    (∃ n : Node ω, (readOne ts).1 = .ok n) ↔
      (∃ text s more, ts = ⟨.atom text, s⟩ :: more) ∨
      (∃ s more, ts = ⟨.opening, s⟩ :: more) ∧ ∃ p, p <+: ts ∧ Balanced p := by
  rcases ts with _ | ⟨⟨lexeme, s⟩, more⟩
  · constructor
    · rintro ⟨n, h⟩
      cases h
    · rintro (⟨_, _, _, h⟩ | ⟨⟨_, _, h⟩, _⟩) <;> cases h
  cases lexeme with
  | atom text => exact ⟨fun _ => Or.inl ⟨text, s, more, rfl⟩, fun _ => ⟨.ofAtom text s, rfl⟩⟩
  | closing =>
    constructor
    · rintro ⟨n, h⟩
      cases h
    · rintro (⟨_, _, _, h⟩ | ⟨⟨_, _, h⟩, _⟩) <;> cases h
  | opening =>
    rcases readOne_opening (ω := ω) s more with ⟨m, p, us, _, hf, _, hr⟩ | ⟨hno, hr⟩
    · rw [hr]
      exact ⟨fun _ => Or.inr ⟨⟨s, more, rfl⟩, p, hf.1, hf.2.1⟩, fun _ => ⟨m, rfl⟩⟩
    · rw [hr]
      constructor
      · rintro ⟨n, h⟩
        cases h
      · rintro (⟨_, _, _, h⟩ | ⟨_, p, hp, hb⟩)
        · cases h
        · exact absurd hb (hno p hp)

/-- An expression is missed only where there is no token at all. -/
theorem readOne_missing_expression_iff (ts : List Token) :
    (readOne ts).1 = (.error (.unexpectedEnd .expression) : Except ReadError (Node ω)) ↔
      ts = [] := by
  rcases ts with _ | ⟨⟨lexeme, s⟩, more⟩
  · exact ⟨fun _ => rfl, fun _ => rfl⟩
  refine ⟨fun h => ?_, fun h => by cases h⟩
  cases lexeme with
  | atom text => cases h
  | closing => cases h
  | opening =>
    rcases readOne_opening (ω := ω) s more with ⟨m, p, us, _, _, _, hr⟩ | ⟨_, hr⟩ <;>
      · rw [hr] at h
        cases h

/-- A closing parenthesis is blamed only where it is the first token. -/
theorem readOne_unexpectedClose_iff (ts : List Token) (s : Span) :
    (readOne ts).1 = (.error (.unexpectedClose s) : Except ReadError (Node ω)) ↔
      ∃ more, ts = ⟨.closing, s⟩ :: more := by
  refine ⟨fun h => ?_, fun ⟨more, h⟩ => h ▸ rfl⟩
  rcases ts with _ | ⟨⟨lexeme, t⟩, more⟩
  · cases h
  cases lexeme with
  | atom text => cases h
  | closing =>
    cases h
    exact ⟨more, rfl⟩
  | opening =>
    rcases readOne_opening (ω := ω) t more with ⟨m, p, us, _, _, _, hr⟩ | ⟨_, hr⟩ <;>
      · rw [hr] at h
        cases h

/-- A closing parenthesis is missed where a list is begun and nothing from the front is balanced. -/
theorem readOne_missing_closing_iff (ts : List Token) :
    (readOne ts).1 = (.error (.unexpectedEnd .closing) : Except ReadError (Node ω)) ↔
      (∃ s more, ts = ⟨.opening, s⟩ :: more) ∧ ∀ p, p <+: ts → ¬ Balanced p := by
  rcases ts with _ | ⟨⟨lexeme, s⟩, more⟩
  · exact ⟨fun h => (nomatch h), fun ⟨⟨_, _, h⟩, _⟩ => nomatch h⟩
  cases lexeme with
  | atom text => exact ⟨fun h => (nomatch h), fun ⟨⟨_, _, h⟩, _⟩ => nomatch h⟩
  | closing => exact ⟨fun h => (nomatch h), fun ⟨⟨_, _, h⟩, _⟩ => nomatch h⟩
  | opening =>
    rcases readOne_opening (ω := ω) s more with ⟨m, p, us, _, hf, _, hr⟩ | ⟨hno, hr⟩
    · rw [hr]
      exact ⟨fun h => (nomatch h), fun ⟨_, h⟩ => absurd hf.2.1 (h p hf.1)⟩
    · rw [hr]
      exact ⟨fun _ => ⟨⟨s, more, rfl⟩, hno⟩, fun _ => rfl⟩

/-- **The grammar of one form.** It is read exactly where the tokens begin with an atom, or with an
    opening parenthesis and some part from the front is balanced. Then the shortest such part is
    taken; it spells the form and no other, so what stands behind is of no account and no shorter
    part is read. Where nothing is read, the first token alone says which of three errors it is. -/
theorem readOne_grammar (ts : List Token) :
    ((∃ n : Node ω, (readOne ts).1 = .ok n) ↔
      (∃ text s more, ts = ⟨.atom text, s⟩ :: more) ∨
      (∃ s more, ts = ⟨.opening, s⟩ :: more) ∧ ∃ p, p <+: ts ∧ Balanced p) ∧
    (∀ (n : Node ω) (rest : List Token), readOne ts = (.ok n, rest) →
      ∃ p, ts = p ++ rest ∧ FirstBalance p ts ∧ (∀ m, Spells [m] p ↔ m = n) ∧
        (∀ us, readOne (p ++ us) = (.ok n, us)) ∧
        ∀ q, q <+: p → q ≠ p → ∀ m : Node ω, (readOne q).1 ≠ .ok m) ∧
    ((readOne ts).1 = (.error (.unexpectedEnd .expression) : Except ReadError (Node ω)) ↔
      ts = []) ∧
    (∀ s, (readOne ts).1 = (.error (.unexpectedClose s) : Except ReadError (Node ω)) ↔
      ∃ more, ts = ⟨.closing, s⟩ :: more) ∧
    ((readOne ts).1 = (.error (.unexpectedEnd .closing) : Except ReadError (Node ω)) ↔
      (∃ s more, ts = ⟨.opening, s⟩ :: more) ∧ ∀ p, p <+: ts → ¬ Balanced p) := by
  refine ⟨exists_readOne_iff ts, ?_, readOne_missing_expression_iff ts,
    readOne_unexpectedClose_iff ts, readOne_missing_closing_iff ts⟩
  intro n rest h
  obtain ⟨p, hp, hf, hs⟩ := readOne_eq_ok h
  refine ⟨p, hp, hf, fun m => ⟨fun hm => ?_, fun hm => hm ▸ hs⟩, readOne_of_spells hs, ?_⟩
  · have := hm.unique hs
    cases this
    rfl
  · intro q hq hqp m hm
    exact readOne_ne_ok_of_proper hf hq hqp (Prod.ext hm rfl)

end MiniLisp
