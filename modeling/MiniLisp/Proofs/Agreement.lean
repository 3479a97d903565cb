import MiniLisp.Console.Dialogue
import MiniLisp.Proofs.Cutting
import MiniLisp.Proofs.Replay
import MiniLisp.Proofs.Spelling
import MiniLisp.Proofs.Values

/-!
# Agreement: three readers of parentheses

The editor counts parentheses (`balance`), the highlighter pairs them (`pairing`) and the reader makes
lists of them (`readAll`). The first goes over characters up to a parenthesis that closes nothing, the
second over all of them, the third over tokens. This file fixes that they agree on every line:

* `balanceTokens`: the count over tokens is the count over characters
  (`balanceFrom_eq_balanceTokens`), and a reader with as many open lists comes to what it says
  (`fits_pushAll`, `balance_fits`);
* the first place `pairing` is left with is the place at which `balance` stops
  (`head?_unmatched_pairingFrom`); the places are those of closing parentheses, in order;
* `Reddens`: a closing parenthesis comes out red. The places left over do and no others, wherever the
  cursor is (`reddens_iff`);
* blanks at the ends of a line are of no account (`balance_trim`), so what is trimmed of a complete
  line can be read;
* `Remark`: what a dialogue says on the standard error. One line adds remarks to those before it
  (`Dialogue.remarked_take?`), and so do all lines (`Dialogue.remarked_converse`);
* **`parentheses_agree`**: the result.
-/

namespace MiniLisp

variable {ω : Type}

/-! ## 1. Characters, tokens, lists -/

@[simp] theorem balanceFrom_opening (depth position : Nat) (cs : List Char) :
    balanceFrom depth position ('(' :: cs) = balanceFrom (depth + 1) (position + 1) cs := rfl

@[simp] theorem balanceFrom_closing_zero (position : Nat) (cs : List Char) :
    balanceFrom 0 position (')' :: cs) = .unmatched position := rfl

@[simp] theorem balanceFrom_closing_succ (outer position : Nat) (cs : List Char) :
    balanceFrom (outer + 1) position (')' :: cs) = balanceFrom outer (position + 1) cs := rfl

theorem balanceFrom_other {c : Char} (h : isParen c = false) (depth position : Nat)
    (cs : List Char) :
    balanceFrom depth position (c :: cs) = balanceFrom depth (position + c.utf8Size) cs := by
  simp only [isParen, Bool.or_eq_false_iff, decide_eq_false_iff_not] at h
  simp [balanceFrom, h]

theorem isParen_of_separator {c : Char} (h : isSeparator c = true) : isParen c = false := by
  simp only [isSeparator, Bool.or_eq_true, decide_eq_true_eq] at h
  rcases h with (((rfl | rfl) | rfl) | rfl) | rfl <;> rfl

theorem isParen_of_atomChar {c : Char} (h : isAtomChar c = true) : isParen c = false := by
  obtain ⟨_, hop, hcl⟩ := isAtomChar_iff_not.mp h
  simp [isParen, hop, hcl]

/-- How the parentheses among tokens stand behind `depth` open ones. -/
def balanceTokens (depth : Nat) : List Token → Balance
  | [] => if depth = 0 then .complete else .incomplete
  | t :: ts =>
    match t.lexeme with
    | .opening => balanceTokens (depth + 1) ts
    | .closing =>
      match depth with
      | 0 => .unmatched t.span.start
      | outer + 1 => balanceTokens outer ts
    | .atom _ => balanceTokens depth ts

/-- A character that belongs to an atom does not count, whether it begins the atom or joins it. -/
theorem balanceTokens_glue {c : Char} (h : isAtomChar c = true) (depth start : Nat)
    (rest : List Token) : balanceTokens depth (glue c start rest) = balanceTokens depth rest := by
  obtain ⟨hsep, hop, hcl⟩ := isAtomChar_iff_not.mp h
  simp only [glue, hsep, hop, hcl, if_false, Bool.false_eq_true]
  split
  · split <;> rfl
  · rfl

/-- **Characters and tokens are counted alike.** -/
theorem balanceFrom_eq_balanceTokens (depth start : Nat) (cs : List Char) :
    balanceFrom depth start cs = balanceTokens depth (tokensFrom start cs) := by
  induction cs generalizing depth start with
  | nil => rfl
  | cons c cs ih =>
    rw [tokensFrom_cons]
    rcases char_cases c with hsep | rfl | rfl | hatom
    · rw [balanceFrom_other (isParen_of_separator hsep), glue_separator hsep, ih]
    · rw [balanceFrom_opening, glue_opening, ih]
      rfl
    · rw [glue_closing]
      cases depth with
      | zero => rfl
      | succ outer =>
        rw [balanceFrom_closing_succ, ih]
        rfl
    · rw [balanceFrom_other (isParen_of_atomChar hatom), balanceTokens_glue hatom, ih]

/-- What reading comes to where the parentheses stand so. -/
def Balance.Fits (r : Except ReadError (List (Node ω))) : Balance → Prop
  | complete => ∃ forms, r = .ok forms
  | incomplete => r = .error (.unexpectedEnd .closing)
  | unmatched position => ∃ span, r = .error (.unexpectedClose span) ∧ span.start = position

namespace Balance.Fits

variable {b : Balance} {r : Except ReadError (List (Node ω))}

theorem complete_iff (h : b.Fits r) : b = .complete ↔ ∃ forms, r = .ok forms := by
  cases b with
  | complete => exact iff_of_true rfl h
  | incomplete =>
    obtain rfl : r = _ := h
    exact iff_of_false nofun nofun
  | unmatched position =>
    obtain ⟨span, rfl, _⟩ := h
    exact iff_of_false nofun nofun

theorem incomplete_iff (h : b.Fits r) :
    b = .incomplete ↔ ∃ expected, r = .error (.unexpectedEnd expected) := by
  cases b with
  | complete =>
    obtain ⟨forms, rfl⟩ := h
    exact iff_of_false nofun nofun
  | incomplete => exact iff_of_true rfl ⟨_, h⟩
  | unmatched position =>
    obtain ⟨span, rfl, _⟩ := h
    exact iff_of_false nofun nofun

theorem unmatched_iff (h : b.Fits r) (position : Nat) :
    b = .unmatched position ↔ ∃ span, r = .error (.unexpectedClose span) ∧ span.start = position := by
  cases b with
  | complete =>
    obtain ⟨forms, rfl⟩ := h
    exact iff_of_false nofun nofun
  | incomplete =>
    obtain rfl : r = _ := h
    exact iff_of_false nofun nofun
  | unmatched found =>
    obtain ⟨span, rfl, rfl⟩ := h
    refine ⟨fun heq => ⟨span, rfl, Balance.unmatched.inj heq⟩, ?_⟩
    rintro ⟨other, heq, rfl⟩
    cases heq
    rfl

end Balance.Fits

/-- **With as many lists open as were counted, reading comes to what the count says.** -/
theorem fits_pushAll (nest : Nest ω) (ts : List Token) :
    (balanceTokens nest.lists.length ts).Fits ((nest.pushAll ts).bind Nest.finish) := by
  induction ts generalizing nest with
  | nil =>
    obtain ⟨lists, forms⟩ := nest
    cases lists with
    | nil => exact ⟨forms.reverse, rfl⟩
    | cons inner outer => rfl
  | cons t ts ih =>
    obtain ⟨lexeme, span⟩ := t
    obtain ⟨lists, forms⟩ := nest
    cases lexeme with
    | opening => exact ih ⟨⟨span, []⟩ :: lists, forms⟩
    | atom text =>
      have h := ih (Nest.add (.ofAtom text span) ⟨lists, forms⟩)
      rw [Nest.length_lists_add] at h
      exact h
    | closing =>
      cases lists with
      | nil => exact ⟨span, rfl, rfl⟩
      | cons inner outer =>
        have h := ih (Nest.add (.list inner.items.reverse (inner.opening.merge span)) ⟨outer, forms⟩)
        rw [Nest.length_lists_add] at h
        exact h

theorem balance_fits (line : String) :
    (balance line).Fits (readAll (tokenize line) : Except ReadError (List (Node ω))) := by
  rw [balance, balanceFrom_eq_balanceTokens]
  exact fits_pushAll Nest.empty (tokenize line)

/-! ## 2. Places that are left over -/

@[simp] theorem pairingFrom_opening (stack : List Nat) (position : Nat) (cs : List Char) :
    pairingFrom stack position ('(' :: cs) = pairingFrom (position :: stack) (position + 1) cs := rfl

theorem pairingFrom_other {c : Char} (h : isParen c = false) (stack : List Nat) (position : Nat)
    (cs : List Char) :
    pairingFrom stack position (c :: cs) = pairingFrom stack (position + c.utf8Size) cs := by
  simp only [isParen, Bool.or_eq_false_iff, decide_eq_false_iff_not] at h
  simp [pairingFrom, h]

theorem paren_cases (c : Char) : isParen c = false ∨ c = '(' ∨ c = ')' := by
  cases h : isParen c with
  | false => exact .inl rfl
  | true => exact .inr (by simpa [isParen] using h)

/-- The place of a parenthesis that closes nothing, if there is one. -/
def Balance.place? : Balance → Option Nat
  | complete => none
  | incomplete => none
  | unmatched position => some position

theorem Balance.place?_eq_some {b : Balance} {position : Nat} :
    b.place? = some position ↔ b = .unmatched position := by
  cases b <;> simp [place?]

/-- **The first place that pairing leaves over is the one at which counting stops.** -/
theorem head?_unmatched_pairingFrom (stack : List Nat) (position : Nat) (cs : List Char) :
    (pairingFrom stack position cs).unmatched.head? =
      (balanceFrom stack.length position cs).place? := by
  induction cs generalizing stack position with
  | nil => cases stack <;> rfl
  | cons c cs ih =>
    rcases paren_cases c with h | rfl | rfl
    · rw [pairingFrom_other h, balanceFrom_other h, ih]
    · exact ih (position :: stack) (position + 1)
    · cases stack with
      | nil => rfl
      | cons opening outer => exact ih outer (position + 1)

/-- What is left over are places of closing parentheses. -/
theorem selects_of_mem_unmatched {stack : List Nat} {position : Nat} {cs : List Char} {i : Nat}
    (h : i ∈ (pairingFrom stack position cs).unmatched) :
    Span.Selects position cs [')'] ⟨i, i + 1⟩ := by
  induction cs generalizing stack position with
  | nil => cases h
  | cons c cs ih =>
    rcases paren_cases c with hc | rfl | rfl
    · rw [pairingFrom_other hc] at h
      exact (ih h).cons
    · exact Span.Selects.cons (ih h)
    · cases stack with
      | cons opening outer => exact Span.Selects.cons (ih h)
      | nil =>
        rcases List.mem_cons.mp h with rfl | h
        · exact ⟨[], cs, rfl, rfl, rfl⟩
        · exact Span.Selects.cons (ih h)

/-- They are left over in order. -/
theorem pairwise_unmatched (stack : List Nat) (position : Nat) (cs : List Char) :
    (pairingFrom stack position cs).unmatched.Pairwise (· < ·) := by
  induction cs generalizing stack position with
  | nil => exact .nil
  | cons c cs ih =>
    rcases paren_cases c with hc | rfl | rfl
    · rw [pairingFrom_other hc]
      exact ih stack _
    · exact ih (position :: stack) (position + 1)
    · cases stack with
      | cons opening outer => exact ih outer (position + 1)
      | nil =>
        refine .cons (fun i hi => ?_) (ih [] (position + 1))
        exact Nat.lt_of_succ_le (selects_of_mem_unmatched hi).start_le

/-- Where counting stops, pairing leaves a place over, and no earlier one. -/
theorem unmatched_of_balance {line : String} {i : Nat} (h : balance line = .unmatched i) :
    i ∈ (pairing line.toList).unmatched ∧ ∀ j ∈ (pairing line.toList).unmatched, i ≤ j := by
  have hhead : (pairing line.toList).unmatched.head? = some i :=
    (head?_unmatched_pairingFrom [] 0 line.toList).trans (Balance.place?_eq_some.mpr h)
  obtain ⟨more, hmore⟩ := List.head?_eq_some_iff.mp hhead
  have hpairwise : (pairing line.toList).unmatched.Pairwise (· < ·) :=
    pairwise_unmatched [] 0 line.toList
  rw [hmore] at hpairwise ⊢
  refine ⟨List.mem_cons_self, fun j hj => ?_⟩
  rcases List.mem_cons.mp hj with rfl | hj
  · exact Nat.le_refl j
  · exact Nat.le_of_lt (List.rel_of_pairwise_cons hpairwise hj)

/-- Where pairing leaves a place over, counting stops. -/
theorem exists_balance_of_unmatched {line : String} {j : Nat}
    (h : j ∈ (pairing line.toList).unmatched) : ∃ i, balance line = .unmatched i := by
  have hhead : (pairing line.toList).unmatched.head? = (balance line).place? :=
    head?_unmatched_pairingFrom [] 0 line.toList
  obtain ⟨i, more, hmore⟩ := List.exists_cons_of_ne_nil (List.ne_nil_of_mem h)
  rw [hmore] at hhead
  exact ⟨i, Balance.place?_eq_some.mp hhead.symm⟩

/-- Counting stops at the first one; pairing goes on. -/
example : balance "a)(b))" = .unmatched 1 ∧ pairing "a)(b))".toList = ⟨[(2, 4)], [1, 5]⟩ := by decide

/-! ## 3. Red parentheses -/

/-- The colour at each place of a line, for a cursor. -/
def colourAt? (line : String) (cursor : Nat) : Nat → Option Colour :=
  (pairing line.toList).colour? ((pairing line.toList).active? cursor)

theorem toList_highlight (line : String) (cursor : Nat) :
    (highlight line cursor).toList = paintFrom (colourAt? line cursor) 0 line.toList := by
  rw [highlight, String.toList_ofList]
  rfl

/-- Red are the places that are left over, wherever the cursor is. -/
theorem colourAt?_eq_red {line : String} {cursor i : Nat} :
    colourAt? line cursor i = some .red ↔ i ∈ (pairing line.toList).unmatched := by
  simp only [colourAt?, Pairing.colour?, List.contains_iff_mem]
  by_cases h : i ∈ (pairing line.toList).unmatched
  · simp [h]
  · simp only [h, if_false, iff_false]
    -- the pair under the cursor is in other colours
    split
    · split
      · nofun
      · split <;> nofun
    · nofun

/-- A character in its colour, if it has one. -/
def paintWith (colour : Option Colour) (c : Char) : List Char :=
  match colour with
  | some colour => colour.paint c
  | none => [c]

theorem paintFrom_cons (colours : Nat → Option Colour) (position : Nat) (c : Char)
    (cs : List Char) :
    paintFrom colours position (c :: cs) =
      paintWith (colours position) c ++ paintFrom colours (position + c.utf8Size) cs := by
  simp only [paintFrom, paintWith]
  cases colours position <;> rfl

theorem paintFrom_append (colours : Nat → Option Colour) (position : Nat) (as bs : List Char) :
    paintFrom colours position (as ++ bs) =
      paintFrom colours position as ++ paintFrom colours (position + byteLength as) bs := by
  induction as generalizing position with
  | nil => rfl
  | cons a as ih =>
    rw [List.cons_append, paintFrom_cons, paintFrom_cons, ih, byteLength_cons, List.append_assoc,
      Nat.add_assoc]

/-- A closing parenthesis tells by what it is painted with that it is red. -/
theorem paintWith_eq_red {colour : Option Colour}
    (h : paintWith colour ')' = Colour.red.paint ')') : colour = some .red := by
  cases colour with
  | none => exact absurd h (by decide)
  | some colour =>
    cases colour with
    | red => rfl
    | blue => exact absurd h (by decide)
    | boldBlue => exact absurd h (by decide)

/-- The closing parenthesis at a place comes out red, between what stands before it and behind it. -/
def Reddens (line : String) (cursor position : Nat) : Prop :=
  ∃ before after, line.toList = before ++ ')' :: after ∧ byteLength before = position ∧
    (highlight line cursor).toList =
      paintFrom (colourAt? line cursor) 0 before ++ Colour.red.paint ')' ++
        paintFrom (colourAt? line cursor) (position + 1) after

/-- **The closing parentheses that come out red are those that are left over.** -/
theorem reddens_iff {line : String} {cursor i : Nat} :
    Reddens line cursor i ↔ i ∈ (pairing line.toList).unmatched := by
  have hpaint : ∀ before after, line.toList = before ++ ')' :: after → byteLength before = i →
      (highlight line cursor).toList =
        paintFrom (colourAt? line cursor) 0 before ++ paintWith (colourAt? line cursor i) ')' ++
          paintFrom (colourAt? line cursor) (i + 1) after := by
    rintro before after hline rfl
    rw [toList_highlight, hline, paintFrom_append, paintFrom_cons, Nat.zero_add, List.append_assoc]
    rfl
  constructor
  · rintro ⟨before, after, hline, hi, hred⟩
    rw [hpaint before after hline hi, List.append_left_inj, List.append_right_inj] at hred
    exact colourAt?_eq_red.mp (paintWith_eq_red hred)
  · intro h
    obtain ⟨before, after, hline, hi, _⟩ := selects_of_mem_unmatched h
    have hline : line.toList = before ++ ')' :: after := by
      rw [hline, List.append_assoc]
      rfl
    have hi : byteLength before = i := by
      rw [Nat.zero_add] at hi
      exact hi.symm
    refine ⟨before, after, hline, hi, ?_⟩
    rw [hpaint before after hline hi, colourAt?_eq_red.mpr h]
    rfl

/-! ## 4. Blanks at the ends -/

/-- A parenthesis is no blank. -/
theorem isParen_of_isBlank {c : Char} (h : Text.isBlank c = true) : isParen c = false := by
  rcases paren_cases c with hc | rfl | rfl
  · exact hc
  · exact absurd h (by decide)
  · exact absurd h (by decide)

theorem filter_dropWhile_isBlank (cs : List Char) :
    (cs.dropWhile Text.isBlank).filter isParen = cs.filter isParen := by
  induction cs with
  | nil => rfl
  | cons c cs ih =>
    rw [List.dropWhile_cons]
    split
    · rename_i hc
      rw [ih, List.filter_cons_of_neg (by simp [isParen_of_isBlank hc])]
    · rfl

/-- Trimming leaves all parentheses. -/
theorem filter_trim (cs : List Char) : (Text.trim cs).filter isParen = cs.filter isParen := by
  rw [Text.trim, Text.trimRight, List.filter_reverse, filter_dropWhile_isBlank, ← List.filter_reverse,
    List.reverse_reverse, filter_dropWhile_isBlank]

/-- Why a text whose parentheses stand so cannot be read, but for the place. -/
def Balance.refusal? : Balance → Option ReadError
  | complete => none
  | incomplete => some (.unexpectedEnd .closing)
  | unmatched _ => some (.unexpectedClose Span.nowhere)

theorem Balance.refusal?_eq_none {b : Balance} : b.refusal? = none ↔ b = .complete := by
  cases b <;> simp [refusal?]

/-- The reason is a matter of the parentheses alone, wherever they stand. -/
theorem refusal?_balanceFrom_filter (depth position place : Nat) (cs : List Char) :
    (balanceFrom depth place (cs.filter isParen)).refusal? = (balanceFrom depth position cs).refusal? := by
  induction cs generalizing depth position place with
  | nil => rfl
  | cons c cs ih =>
    rcases paren_cases c with hc | rfl | rfl
    · rw [List.filter_cons_of_neg (by simp [hc]), balanceFrom_other hc]
      exact ih depth _ place
    · rw [List.filter_cons_of_pos rfl]
      exact ih (depth + 1) _ _
    · rw [List.filter_cons_of_pos rfl]
      cases depth with
      | zero => rfl
      | succ outer => exact ih outer _ _

/-- Trimming leaves the reason. -/
theorem refusal?_balance_trim (cs : List Char) :
    (balance (String.ofList (Text.trim cs))).refusal? = (balance (String.ofList cs)).refusal? := by
  simp only [balance, String.toList_ofList]
  rw [← refusal?_balanceFrom_filter 0 0 0 (Text.trim cs), filter_trim, refusal?_balanceFrom_filter 0 0 0 cs]

/-- **A line trimmed of its blanks is complete exactly if the line is.** -/
theorem balance_trim (cs : List Char) :
    balance (String.ofList (Text.trim cs)) = .complete ↔ balance (String.ofList cs) = .complete := by
  rw [← Balance.refusal?_eq_none, refusal?_balance_trim, Balance.refusal?_eq_none]

/-- What fails of a complete line, trimmed of its blanks, is an evaluation. -/
theorem eval_of_runAll_trim [Operation ω] {cs : List Char}
    (h : balance (String.ofList cs) = .complete) {env : Environment ω} {e : Error ω}
    (he : (runAll env (String.ofList (Text.trim cs))).outcome = .error e) :
    ∃ cause, e = .eval cause := by
  obtain ⟨forms, hforms⟩ := (balance_fits (ω := ω) _).complete_iff.mp ((balance_trim cs).mpr h)
  rw [runAll_of_read hforms] at he
  obtain ⟨cause, rfl, _⟩ := Run.exists_of_mapError_error he
  exact ⟨cause, rfl⟩

/-! ## 5. Dialogues -/

namespace Console

/-- What a dialogue has to say on the standard error: that a parenthesis closes nothing, the report of
    an evaluation that failed, or that a line cannot be read as text. -/
inductive Remark : String → Prop
  | unmatched (position : Nat) : Remark ("  - Unmatched ')' at position " ++ toString position)
  | report {env : Environment Empty} {text : String} {cause : EvalError Empty}
      (reachable : env.Reachable)
      (fails : (runAll env text).outcome = .error (.eval cause)) :
      Remark (errorText (.eval cause) text)
  | invalidLine : Remark Dialogue.invalidLineText

/-- What was said before, and then remarks. -/
def Remarked (before after : String) : Prop :=
  ∃ remarks : List String, (∀ remark ∈ remarks, Remark remark) ∧
    after = before ++ String.join remarks

theorem Remarked.refl (text : String) : Remarked text text :=
  ⟨[], nofun, by simp⟩

theorem Remarked.of_remark {remark : String} (h : Remark remark) (before : String) :
    Remarked before (before ++ remark) :=
  ⟨[remark], by simpa using h, by simp⟩

theorem Remarked.trans {a b c : String} (hab : Remarked a b) (hbc : Remarked b c) :
    Remarked a c := by
  obtain ⟨remarks, hremarks, rfl⟩ := hab
  obtain ⟨more, hmore, rfl⟩ := hbc
  refine ⟨remarks ++ more, fun remark hmem => ?_, ?_⟩
  · rcases List.mem_append.mp hmem with h | h
    · exact hremarks remark h
    · exact hmore remark h
  · rw [String.join_append, String.append_assoc]

namespace Dialogue

/-- Nothing but evaluations can fail of a text that is complete but for blanks. -/
theorem remarked_answer {d : Dialogue} (hd : d.env.Reachable) {text : List Char}
    (h : balance (String.ofList text) = .complete) :
    (d.answer (String.ofList (Text.trim text))).env.Reachable ∧
      Remarked d.stderr (d.answer (String.ofList (Text.trim text))).stderr := by
  unfold answer
  cases houtcome : (runAll d.env (String.ofList (Text.trim text))).outcome with
  | error e =>
    obtain ⟨cause, rfl⟩ := eval_of_runAll_trim h houtcome
    simp only [houtcome]
    exact ⟨.all _ hd, .of_remark (.report hd houtcome) _⟩
  | ok last =>
    cases last with
    | none =>
      simp only [houtcome]
      exact ⟨.all _ hd, .refl _⟩
    | some value =>
      simp only [houtcome]
      exact ⟨.all _ hd, .refl _⟩

theorem remarked_accept? {d next : Dialogue} (hd : d.env.Reachable) {text : List Char}
    (h : balance (String.ofList text) = .complete) (hnext : d.accept? text = some next) :
    next.env.Reachable ∧ Remarked d.stderr next.stderr := by
  simp only [accept?] at hnext
  split at hnext
  · obtain rfl := Option.some.inj hnext
    exact ⟨hd, .refl _⟩
  split at hnext
  · exact absurd hnext nofun
  · obtain rfl := Option.some.inj hnext
    exact remarked_answer hd h

/-- **One line more, and nothing is said but remarks.** What is bound after it is what texts can bind. -/
theorem remarked_take? {d next : Dialogue} (hd : d.env.Reachable) {line : String}
    (h : d.take? line = some next) : next.env.Reachable ∧ Remarked d.stderr next.stderr := by
  simp only [take?] at h
  split at h
  case h_1 position _ =>
    obtain rfl := Option.some.inj h
    refine ⟨hd, ?_⟩
    rw [String.append_assoc]
    exact .of_remark (.unmatched position) _
  case h_2 =>
    obtain rfl := Option.some.inj h
    exact ⟨hd, .refl _⟩
  case h_3 hcomplete => exact remarked_accept? hd hcomplete h

/-- **All lines that are left, and nothing is said but remarks.** -/
theorem remarked_converse {d : Dialogue} (hd : d.env.Reachable) (lines : List (List UInt8)) :
    Remarked d.stderr (d.converse lines).stderr := by
  induction lines generalizing d with
  | nil => exact .refl _
  | cons bytes more ih =>
    simp only [converse]
    split
    · exact .of_remark .invalidLine _
    · split
      · exact .refl _
      · rename_i next hnext
        obtain ⟨hreachable, hremarked⟩ := remarked_take? hd hnext
        exact hremarked.trans (ih hreachable)

end Dialogue

end Console

/-! ## 6. Agreement -/

/-- **On every line the three readers of parentheses agree.** A line is complete exactly if all of it
    can be read, incomplete exactly if reading comes to its end too early, and has a parenthesis that
    closes nothing exactly where reading meets one; that parenthesis is then the first that comes out
    red, wherever the cursor is, and nothing else makes one come out red. So of a complete line, trimmed
    of its blanks, only evaluations fail, and a dialogue reports no other failures. -/
theorem parentheses_agree [Operation ω] :
    (∀ line : String,
      (balance line = .complete ↔ ∃ forms : List (Node ω), readAll (tokenize line) = .ok forms) ∧
      (balance line = .incomplete ↔
        ∃ expected, (readAll (tokenize line) : Except ReadError (List (Node ω))) =
          .error (.unexpectedEnd expected)) ∧
      (∀ i, balance line = .unmatched i ↔
        ∃ span, (readAll (tokenize line) : Except ReadError (List (Node ω))) =
          .error (.unexpectedClose span) ∧ span.start = i) ∧
      (∀ i, balance line = .unmatched i → ∀ cursor,
        Reddens line cursor i ∧ ∀ j, Reddens line cursor j → i ≤ j) ∧
      (∀ cursor, (∃ j, Reddens line cursor j) ↔ ∃ i, balance line = .unmatched i) ∧
      (balance line = .complete → ∀ (env : Environment ω) (e : Error ω),
        (runAll env (String.ofList (Text.trim line.toList))).outcome = .error e →
        ∃ cause, e = .eval cause)) ∧
    ∀ (history : Bool) (stdin : ByteArray),
      ∃ remarks : List String, (∀ remark ∈ remarks, Console.Remark remark) ∧
        (Console.dialogue history stdin).stderr = String.join remarks := by
  refine ⟨fun line => ?line, fun history stdin => ?dialogue⟩
  case line =>
    have hfits := balance_fits (ω := ω) line
    refine ⟨hfits.complete_iff, hfits.incomplete_iff, hfits.unmatched_iff, fun i hi cursor => ?first,
      fun cursor => ⟨?red, ?stops⟩, fun h env e he => ?trimmed⟩
    case first =>
      obtain ⟨hmem, hleast⟩ := unmatched_of_balance hi
      exact ⟨reddens_iff.mpr hmem, fun j hj => hleast j (reddens_iff.mp hj)⟩
    case red =>
      rintro ⟨j, hj⟩
      exact exists_balance_of_unmatched (reddens_iff.mp hj)
    case stops =>
      rintro ⟨i, hi⟩
      exact ⟨i, reddens_iff.mpr (unmatched_of_balance hi).1⟩
    case trimmed =>
      have hcomplete : balance (String.ofList line.toList) = .complete := by
        rw [String.ofList_toList]
        exact h
      exact eval_of_runAll_trim hcomplete he
  case dialogue =>
    obtain ⟨remarks, hremarks, hstderr⟩ :=
      Console.Dialogue.remarked_converse (d := .start history) .standard
        (Console.byteLines stdin.toList)
    refine ⟨remarks, hremarks, hstderr.trans ?_⟩
    exact String.empty_append

end MiniLisp
