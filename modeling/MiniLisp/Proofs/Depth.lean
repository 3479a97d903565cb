import MiniLisp.Token

/-!
# Depth: how many parentheses are open

Whether a sequence of tokens can be read is a matter of counting. This file fixes the count:

* `depth`: the opening parentheses of a sequence less its closing ones;
* `Keeps d`: begun `d` deep, no part from the front closes more than is open. **Where this fails
  there is a first token at which it does** (`keeps_or_excess`);
* `Balanced`: not empty, and as many opening as closing parentheses; if any part from the front is
  balanced, there is a shortest one (`exists_firstBalance`), and what begins with an opening
  parenthesis stays above zero until then (`positive_of_unbalanced`).
-/

namespace MiniLisp

/-! ## 1. Counting -/

/-- How many parentheses are opened and not closed again. -/
def depth (ts : List Token) : Int :=
  (ts.countP (·.lexeme = .opening) : Int) - ts.countP (·.lexeme = .closing)

/-- How much deeper one token leads. -/
def Token.step (t : Token) : Int :=
  match t.lexeme with
  | .opening => 1
  | .closing => -1
  | .atom _ => 0

@[simp] theorem depth_nil : depth [] = 0 := rfl

@[simp] theorem depth_cons (t : Token) (ts : List Token) :
    depth (t :: ts) = t.step + depth ts := by
  obtain ⟨lexeme, span⟩ := t
  cases lexeme <;> simp [depth, Token.step] <;> omega

@[simp] theorem depth_append (ts us : List Token) : depth (ts ++ us) = depth ts + depth us := by
  simp only [depth, List.countP_append]
  omega

theorem Token.neg_one_le_step (t : Token) : -1 ≤ t.step := by
  obtain ⟨lexeme, span⟩ := t
  cases lexeme <;> simp [step]

/-- Only a closing parenthesis leads back. -/
theorem Token.lexeme_of_step_neg {t : Token} (h : t.step < 0) : t.lexeme = .closing := by
  obtain ⟨lexeme, span⟩ := t
  cases lexeme with
  | closing => rfl
  | opening => exact absurd h (by simp [step])
  | atom text => exact absurd h (by simp [step])

/-! ## 2. Parts from the front -/

/-- Begun `d` deep, no part from the front closes more than is open. -/
def Keeps (d : Int) (ts : List Token) : Prop := ∀ p, p <+: ts → 0 ≤ d + depth p

theorem keeps_nil {d : Int} (h : 0 ≤ d) : Keeps d [] := by
  intro p hp
  rw [List.prefix_nil.mp hp]
  simpa using h

theorem Keeps.nonneg {d : Int} {ts : List Token} (h : Keeps d ts) : 0 ≤ d := by
  have := h [] List.nil_prefix
  simpa using this

theorem keeps_cons {d : Int} {t : Token} {ts : List Token} :
    Keeps d (t :: ts) ↔ 0 ≤ d ∧ Keeps (d + t.step) ts := by
  constructor
  · intro h
    refine ⟨h.nonneg, fun p hp => ?_⟩
    have := h (t :: p) (List.cons_prefix_cons.mpr ⟨rfl, hp⟩)
    rw [depth_cons] at this
    omega
  · intro ⟨hd, h⟩ p hp
    rcases List.prefix_cons_iff.mp hp with rfl | ⟨q, rfl, hq⟩
    · simpa using hd
    · have := h q hq
      rw [depth_cons]
      omega

/-- **Either the count never falls below zero, or there is a first token at which it does.** -/
theorem keeps_or_excess {d : Int} (hd : 0 ≤ d) (ts : List Token) :
    Keeps d ts ∨ ∃ before t after, ts = before ++ t :: after ∧ Keeps d before ∧
      d + depth (before ++ [t]) < 0 := by
  induction ts generalizing d with
  | nil => exact Or.inl (keeps_nil hd)
  | cons t ts ih =>
    by_cases ht : 0 ≤ d + t.step
    · rcases ih ht with h | ⟨before, u, after, rfl, hb, hu⟩
      · exact Or.inl (keeps_cons.mpr ⟨hd, h⟩)
      · refine Or.inr ⟨t :: before, u, after, rfl, keeps_cons.mpr ⟨hd, hb⟩, ?_⟩
        rw [List.cons_append, depth_cons]
        omega
    · refine Or.inr ⟨[], t, ts, rfl, keeps_nil hd, ?_⟩
      simpa using ht

/-! ## 3. Balance -/

/-- Not empty, and as many opening as closing parentheses. -/
def Balanced (ts : List Token) : Prop := ts ≠ [] ∧ depth ts = 0

/-- The shortest balanced part from the front: every other one goes on behind it. -/
def FirstBalance (p ts : List Token) : Prop :=
  p <+: ts ∧ Balanced p ∧ ∀ q, q <+: ts → Balanced q → p <+: q

/-- Of the balanced parts from the front one is the shortest. -/
theorem exists_firstBalance {ts p : List Token} (hp : p <+: ts) (hb : Balanced p) :
    ∃ q, FirstBalance q ts := by
  induction hn : p.length using Nat.strongRecOn generalizing p with
  | ind n ih =>
    by_cases h : ∃ q, q <+: ts ∧ Balanced q ∧ q.length < p.length
    · obtain ⟨q, hq, hqb, hlt⟩ := h
      exact ih q.length (hn ▸ hlt) hq hqb rfl
    · refine ⟨p, hp, hb, fun q hq hqb => ?_⟩
      refine List.prefix_of_prefix_length_le hp hq ?_
      exact Nat.le_of_not_lt fun hlt => h ⟨q, hq, hqb, hlt⟩

/-- Above zero, and never at zero, is always above zero: one token leads down by one at most. -/
theorem positive_of_ne_zero {d : Int} (hd : 0 < d) {ts : List Token}
    (h : ∀ p, p <+: ts → d + depth p ≠ 0) : ∀ p, p <+: ts → 0 < d + depth p := by
  induction ts generalizing d with
  | nil =>
    intro p hp
    rw [List.prefix_nil.mp hp]
    simpa using hd
  | cons t ts ih =>
    have hstep : 0 < d + t.step := by
      have hne := h [t] (List.cons_prefix_cons.mpr ⟨rfl, List.nil_prefix⟩)
      have := t.neg_one_le_step
      simp only [depth_cons, depth_nil] at hne
      omega
    have htail : ∀ p, p <+: ts → d + t.step + depth p ≠ 0 := by
      intro p hp
      have := h (t :: p) (List.cons_prefix_cons.mpr ⟨rfl, hp⟩)
      rw [depth_cons] at this
      omega
    intro p hp
    rcases List.prefix_cons_iff.mp hp with rfl | ⟨q, rfl, hq⟩
    · simpa using hd
    · have := ih hstep htail q hq
      rw [depth_cons]
      omega

/-- Behind an opening parenthesis, as long as nothing is balanced, something is open. -/
theorem positive_of_unbalanced {s : Span} {ts : List Token}
    (h : ∀ p, p <+: (⟨.opening, s⟩ :: ts) → ¬ Balanced p) :
    ∀ p, p <+: ts → 0 < 1 + depth p := by
  refine positive_of_ne_zero Int.one_pos fun p hp h0 => ?_
  refine h (⟨.opening, s⟩ :: p) (List.cons_prefix_cons.mpr ⟨rfl, hp⟩) ⟨List.cons_ne_nil _ _, ?_⟩
  rw [depth_cons]
  exact h0

/-- The shortest balance behind an opening parenthesis never closes more than is open. -/
theorem FirstBalance.keeps {s : Span} {p ts : List Token}
    (h : FirstBalance p (⟨.opening, s⟩ :: ts)) : Keeps 0 p := by
  obtain ⟨hp, hb, hmin⟩ := h
  intro q hq
  by_cases hqp : q = p
  · rw [hqp, hb.2]
    exact Int.le_refl 0
  · rcases List.prefix_cons_iff.mp (hq.trans hp) with rfl | ⟨r, rfl, hr⟩
    · simp
    -- no part of `q` is balanced, since it would be shorter than `p`
    · have hno : ∀ r', r' <+: (⟨.opening, s⟩ :: r) → ¬ Balanced r' := by
        intro r' hr' hb'
        have hle := (hmin r' (hr'.trans (hq.trans hp)) hb').length_le
        exact hqp (hq.eq_of_length_le (Nat.le_trans hle hr'.length_le))
      have := positive_of_unbalanced hno r (List.prefix_refl r)
      rw [depth_cons]
      show 0 ≤ 0 + (1 + depth r)
      omega

end MiniLisp
