import MiniLisp.Proofs.Depth
import MiniLisp.Reader

/-!
# Spelling: which tokens a sequence of forms is written with

A form is written with one atom, or with an opening parenthesis, its items, and a closing one. This
file relates that grammar to the reader:

* `Spells forms ts`: the tokens, written in order, are those of the forms. An atom has the span of
  its token and the kind of its characters, and a list has the merged spans of **its own** two
  parentheses;
* `Nest.Holds`: the invariant of the reader. What has been read spells the complete forms, and
  behind each parenthesis that is still open the items under construction;
* **`readAll_eq_ok_iff`**: the reader answers with forms exactly where the tokens spell them, so the
  tokens decide the forms (`Spells.unique`);
* `Nest.pushAll_of_keeps`, `Nest.pushAll_of_excess`: how far the reader gets is a matter of depth.
-/

namespace MiniLisp

variable {ω : Type}

/-! ## 1. The grammar -/

/-- The tokens that a sequence of forms is written with. -/
inductive Spells : List (Node ω) → List Token → Prop
  | nil : Spells [] []
  | atom (text : String) (span : Span) {forms : List (Node ω)} {ts : List Token}
      (rest : Spells forms ts) :
      Spells (.ofAtom text span :: forms) (⟨.atom text, span⟩ :: ts)
  | list (opening closing : Span) {items forms : List (Node ω)} {inner ts : List Token}
      (inside : Spells items inner) (rest : Spells forms ts) :
      Spells (.list items (opening.merge closing) :: forms)
        (⟨.opening, opening⟩ :: (inner ++ ⟨.closing, closing⟩ :: ts))

namespace Spells

theorem append {forms more : List (Node ω)} {ts us : List Token} (h : Spells forms ts)
    (k : Spells more us) : Spells (forms ++ more) (ts ++ us) := by
  induction h with
  | nil => exact k
  | atom text span _ ih => exact .atom text span ih
  | list o c inside _ _ ih =>
    have := Spells.list o c inside ih
    simpa using this

/-- The first form takes tokens of its own, and the other forms take those behind them. -/
theorem uncons {n : Node ω} {forms : List (Node ω)} {ts : List Token} (h : Spells (n :: forms) ts) :
    ∃ p us, ts = p ++ us ∧ Spells [n] p ∧ Spells forms us := by
  cases h with
  | atom text span rest => exact ⟨[⟨.atom text, span⟩], _, rfl, .atom text span .nil, rest⟩
  | list o c inside rest => exact ⟨_, _, by simp, .list o c inside .nil, rest⟩

/-- What is spelled out closes all that it opens. -/
theorem depth_eq_zero {forms : List (Node ω)} {ts : List Token} (h : Spells forms ts) :
    depth ts = 0 := by
  induction h with
  | nil => rfl
  | atom text span _ ih =>
    rw [depth_cons, ih]
    rfl
  | list o c _ _ ihi ihr =>
    rw [depth_cons, depth_append, depth_cons, ihi, ihr]
    rfl

/-- One form is written with one token at least, and closes all that it opens. -/
theorem balanced {n : Node ω} {p : List Token} (h : Spells [n] p) : Balanced p := by
  refine ⟨?_, h.depth_eq_zero⟩
  cases h <;> exact List.cons_ne_nil _ _

end Spells

/-! ## 2. What the reader holds -/

namespace Nest

/-- What has been read: complete forms, and behind each open parenthesis the items so far. -/
def HoldsBehind (forms : List (Node ω)) : List (OpenList ω) → List Token → Prop
  | [], ts => Spells forms.reverse ts
  | inner :: outer, ts => ∃ before after, ts = before ++ ⟨.opening, inner.opening⟩ :: after ∧
      HoldsBehind forms outer before ∧ Spells inner.items.reverse after

/-- The tokens that have been read into a nest. -/
def Holds (nest : Nest ω) (ts : List Token) : Prop := HoldsBehind nest.forms nest.lists ts

theorem holds_empty : (empty : Nest ω).Holds [] := Spells.nil

/-- A complete node follows what has been read. -/
theorem Holds.add {nest : Nest ω} {ts p : List Token} {n : Node ω} (h : nest.Holds ts)
    (hn : Spells [n] p) : (nest.add n).Holds (ts ++ p) := by
  obtain ⟨lists, forms⟩ := nest
  cases lists with
  | nil =>
    have h' : Spells forms.reverse ts := h
    show Spells (n :: forms).reverse (ts ++ p)
    rw [List.reverse_cons]
    exact h'.append hn
  | cons inner outer =>
    obtain ⟨before, after, rfl, hb, ha⟩ := h
    refine ⟨before, after ++ p, by simp, hb, ?_⟩
    rw [List.reverse_cons]
    exact ha.append hn

/-- **One token more keeps the invariant.** -/
theorem Holds.push {nest next : Nest ω} {ts : List Token} {t : Token} (h : nest.Holds ts)
    (ht : nest.push t = .ok next) : next.Holds (ts ++ [t]) := by
  obtain ⟨lexeme, s⟩ := t
  cases lexeme with
  | opening =>
    rw [push_opening] at ht
    cases ht
    exact ⟨ts, [], rfl, h, .nil⟩
  | atom text =>
    rw [push_atom] at ht
    cases ht
    exact h.add (.atom text s .nil)
  | closing =>
    obtain ⟨lists, forms⟩ := nest
    cases lists with
    | nil => cases ht
    | cons inner outer =>
      rw [push_closing_cons] at ht
      cases ht
      obtain ⟨before, after, rfl, hb, ha⟩ := h
      have hb' : Holds ⟨outer, forms⟩ before := hb
      have := hb'.add (.list inner.opening s ha .nil)
      simpa using this

/-- What several tokens make of a nest holds them all. -/
theorem Holds.pushAll {nest last : Nest ω} {ts us : List Token} (h : nest.Holds ts)
    (hu : nest.pushAll us = .ok last) : last.Holds (ts ++ us) := by
  induction us generalizing nest ts with
  | nil =>
    cases hu
    simpa using h
  | cons u us ih =>
    rw [Nest.pushAll] at hu
    split at hu
    · rename_i next hnext
      have := ih (h.push hnext) hu
      simpa using this
    · cases hu

/-! ## 3. What the reader takes -/

/-- Several nodes, one after the other, go where one goes. -/
def addAll (nest : Nest ω) (ns : List (Node ω)) : Nest ω := ns.foldl (fun nest n => nest.add n) nest

@[simp] theorem addAll_cons (nest : Nest ω) (n : Node ω) (ns : List (Node ω)) :
    nest.addAll (n :: ns) = (nest.add n).addAll ns := rfl

theorem addAll_outside (forms ns : List (Node ω)) :
    (⟨[], forms⟩ : Nest ω).addAll ns = ⟨[], ns.reverse ++ forms⟩ := by
  induction ns generalizing forms with
  | nil => rfl
  | cons n ns ih =>
    rw [addAll_cons]
    show (⟨[], n :: forms⟩ : Nest ω).addAll ns = _
    rw [ih, List.reverse_cons, List.append_assoc]
    rfl

theorem addAll_inside (inner : OpenList ω) (outer : List (OpenList ω)) (forms ns : List (Node ω)) :
    (⟨inner :: outer, forms⟩ : Nest ω).addAll ns =
      ⟨⟨inner.opening, ns.reverse ++ inner.items⟩ :: outer, forms⟩ := by
  induction ns generalizing inner with
  | nil => rfl
  | cons n ns ih =>
    rw [addAll_cons]
    show (⟨⟨inner.opening, n :: inner.items⟩ :: outer, forms⟩ : Nest ω).addAll ns = _
    rw [ih, List.reverse_cons, List.append_assoc]
    rfl

/-- An opening parenthesis, items and a closing one are read as one list, wherever they stand. -/
theorem push_closing_addAll (nest : Nest ω) (opening closing : Span) (items : List (Node ω)) :
    ((⟨⟨opening, []⟩ :: nest.lists, nest.forms⟩ : Nest ω).addAll items).push ⟨.closing, closing⟩ =
      .ok (nest.add (.list items (opening.merge closing))) := by
  rw [addAll_inside, push_closing_cons, List.append_nil, List.reverse_reverse]

/-- **Tokens that spell forms are read as these forms, wherever they stand.** -/
theorem pushAll_of_spells {forms : List (Node ω)} {ts : List Token} (h : Spells forms ts)
    (nest : Nest ω) (rest : List Token) :
    nest.pushAll (ts ++ rest) = (nest.addAll forms).pushAll rest := by
  induction h generalizing nest rest with
  | nil => rfl
  | atom text s _ ih =>
    rw [List.cons_append, Nest.pushAll, push_atom]
    exact ih _ rest
  | list o c _ _ ihi ihr =>
    rw [List.cons_append, List.append_assoc, List.cons_append, Nest.pushAll, push_opening]
    show Nest.pushAll _ _ = _
    rw [ihi, Nest.pushAll, push_closing_addAll]
    exact ihr _ rest

end Nest

/-! ## 4. All forms -/

theorem readAll_of_spells {forms : List (Node ω)} {ts : List Token} (h : Spells forms ts) :
    readAll ts = .ok forms := by
  have := Nest.pushAll_of_spells h Nest.empty []
  rw [List.append_nil] at this
  rw [readAll, this, Nest.empty, Nest.addAll_outside, List.append_nil]
  show Nest.finish ⟨[], forms.reverse⟩ = .ok forms
  rw [Nest.finish, List.reverse_reverse]

/-- **The reader answers with forms exactly where the tokens spell them.** -/
theorem readAll_eq_ok_iff {forms : List (Node ω)} {ts : List Token} :
    readAll ts = .ok forms ↔ Spells forms ts := by
  refine ⟨fun h => ?_, readAll_of_spells⟩
  rw [readAll] at h
  cases hp : (Nest.empty : Nest ω).pushAll ts with
  | error cause =>
    rw [hp] at h
    cases h
  | ok nest =>
    rw [hp] at h
    have hh := Nest.holds_empty.pushAll hp
    obtain ⟨lists, fs⟩ := nest
    cases lists with
    | nil =>
      cases h
      exact hh
    | cons inner outer => cases h

/-- Tokens spell one sequence of forms at most. -/
theorem Spells.unique {forms more : List (Node ω)} {ts : List Token} (h : Spells forms ts)
    (k : Spells more ts) : forms = more := by
  have := readAll_of_spells h
  rw [readAll_of_spells k] at this
  cases this
  rfl

/-! ## 5. Depth decides -/

namespace Nest

@[simp] theorem length_lists_add (nest : Nest ω) (n : Node ω) :
    (nest.add n).lists.length = nest.lists.length := by
  obtain ⟨lists, forms⟩ := nest
  cases lists <;> rfl

/-- As long as there is something to close, a token is taken, and the lists follow the depth. -/
theorem push_of_nonneg {nest : Nest ω} {t : Token} (h : 0 ≤ nest.lists.length + t.step) :
    ∃ next, nest.push t = .ok next ∧ (next.lists.length : Int) = nest.lists.length + t.step := by
  obtain ⟨lexeme, s⟩ := t
  cases lexeme with
  | opening => exact ⟨_, push_opening nest s, by simp [Token.step]⟩
  | atom text => exact ⟨_, push_atom nest text s, by simp [Token.step]⟩
  | closing =>
    obtain ⟨lists, forms⟩ := nest
    cases lists with
    | nil => exact absurd h (by simp [Token.step])
    | cons inner outer =>
      refine ⟨_, push_closing_cons inner outer forms s, ?_⟩
      simp only [length_lists_add, List.length_cons, Token.step]
      omega

/-- Where there is nothing to close, a closing parenthesis is to blame. -/
theorem push_of_neg {nest : Nest ω} {t : Token} (h : nest.lists.length + t.step < 0) :
    nest.push t = .error (.unexpectedClose t.span) := by
  have hstep := t.neg_one_le_step
  have hc : t.lexeme = .closing := t.lexeme_of_step_neg (by omega)
  obtain ⟨lexeme, s⟩ := t
  obtain ⟨lists, forms⟩ := nest
  cases hc
  cases lists with
  | nil => rfl
  | cons inner outer =>
    simp only [List.length_cons] at h
    omega

theorem pushAll_of_keeps (nest : Nest ω) {ts : List Token} (h : Keeps nest.lists.length ts) :
    ∃ last, nest.pushAll ts = .ok last ∧
      (last.lists.length : Int) = nest.lists.length + depth ts := by
  induction ts generalizing nest with
  | nil => exact ⟨nest, rfl, by simp⟩
  | cons t ts ih =>
    have hk := (keeps_cons.mp h).2
    obtain ⟨next, hnext, hlen⟩ := push_of_nonneg hk.nonneg
    have hk' : Keeps next.lists.length ts := by
      rw [hlen]
      exact hk
    obtain ⟨last, hlast, hdepth⟩ := ih next hk'
    refine ⟨last, ?_, ?_⟩
    · rw [Nest.pushAll, hnext]
      exact hlast
    · rw [hdepth, hlen, depth_cons, Int.add_assoc]

theorem pushAll_of_excess (nest : Nest ω) {before after : List Token} {t : Token}
    (h : Keeps nest.lists.length before)
    (ht : nest.lists.length + depth (before ++ [t]) < 0) :
    nest.pushAll (before ++ t :: after) = .error (.unexpectedClose t.span) := by
  obtain ⟨last, hlast, hlen⟩ := pushAll_of_keeps nest h
  have hneg : last.lists.length + t.step < 0 := by
    rw [depth_append, depth_cons, depth_nil] at ht
    omega
  rw [pushAll_append, hlast]
  show last.pushAll (t :: after) = _
  rw [Nest.pushAll, push_of_neg hneg]

end Nest

end MiniLisp
