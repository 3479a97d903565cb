import Mathlib.Data.List.DropRight
import MiniLisp.Proofs.Agreement
import MiniLisp.Proofs.Blame

/-!
# Continuing: what may be written behind a text

A text that cannot be read may lack its end, or be wrong for good, and a text that can be read may go on.
This file fixes what is settled about a text, whatever is written behind it:

* `balanceFrom_append`: either a parenthesis closes nothing, and stays the one to blame, or what counts of
  the text from then on is how many parentheses it has left open;
* `balance_append_of_unmatched`, `exists_closings_of_incomplete`: so a text is wrong for good, or is completed
  by as many closing parentheses as it has left open, and by no other number of them;
* `exists_last_run`: the seam need not be one between tokens. Characters that end in an atom end in a longest
  run of such characters, which what comes next may lengthen;
* `readAll_concat_atom`, `prefix_of_readAll_append`: **all forms stay, but for a last atom that the end of the
  text touches**;
* **`text_settles_continuations`**: the three together.
-/

namespace MiniLisp

variable {ω : Type}

/-! ## 1. Parentheses left open -/

/-- So many closing parentheses. -/
def closings (count : Nat) : String := String.ofList (List.replicate count ')')

/-- **What stands behind some characters is counted from the parentheses they leave open**, unless one of
    them closes nothing already. -/
theorem balanceFrom_append (depth position : Nat) (as : List Char) :
    (∃ i, ∀ bs, balanceFrom depth position (as ++ bs) = .unmatched i) ∨
      ∃ left, ∀ bs, balanceFrom depth position (as ++ bs) =
        balanceFrom left (position + byteLength as) bs := by
  induction as generalizing depth position with
  | nil => exact .inr ⟨depth, fun _ => rfl⟩
  | cons c as ih =>
    simp only [List.cons_append, byteLength_cons, ← Nat.add_assoc]
    rcases paren_cases c with hc | rfl | rfl
    · simp only [balanceFrom_other hc]
      exact ih depth (position + c.utf8Size)
    · exact ih (depth + 1) (position + 1)
    · cases depth with
      | zero => exact .inl ⟨position, fun _ => rfl⟩
      | succ outer => exact ih outer (position + 1)

/-- As many closing parentheses as are open leave none open, and no other number of them does. -/
theorem balanceFrom_closings (depth position count : Nat) :
    balanceFrom depth position (List.replicate count ')') = .complete ↔ count = depth := by
  induction count generalizing depth position with
  | zero => cases depth <;> simp [balanceFrom]
  | succ count ih =>
    rw [List.replicate_succ]
    cases depth with
    | zero => simp [balanceFrom_closing_zero]
    | succ outer => rw [balanceFrom_closing_succ, ih, Nat.succ_inj]

/-- A parenthesis that closes nothing is to blame whatever is written behind it. -/
theorem balance_append_of_unmatched {t : String} {i : Nat} (h : balance t = .unmatched i) (u : String) :
    balance (t ++ u) = .unmatched i := by
  rw [balance, String.toList_append]
  rcases balanceFrom_append 0 0 t.toList with ⟨j, hj⟩ | ⟨left, hleft⟩
  · have hnil := hj []
    rw [List.append_nil] at hnil
    rw [hj, ← hnil]
    exact h
  · -- with no character behind it, the text would be judged by what it leaves open
    have hnil := hleft []
    rw [List.append_nil, balanceFrom] at hnil
    rw [balance, hnil] at h
    split at h <;> cases h

/-- **What lacks its end is completed by one number of closing parentheses.** -/
theorem exists_closings_of_incomplete {t : String} (h : balance t = .incomplete) :
    ∃ left, 0 < left ∧ ∀ count, balance (t ++ closings count) = .complete ↔ count = left := by
  rcases balanceFrom_append 0 0 t.toList with ⟨j, hj⟩ | ⟨left, hleft⟩
  · have hnil := hj []
    rw [List.append_nil] at hnil
    rw [balance, hnil] at h
    cases h
  · refine ⟨left, Nat.pos_of_ne_zero ?_, fun count => ?_⟩
    · rintro rfl
      have hnil := hleft []
      rw [List.append_nil] at hnil
      rw [balance, hnil] at h
      cases h
    · rw [balance, String.toList_append, closings, String.toList_ofList, hleft]
      exact balanceFrom_closings left _ count

/-! ## 2. Errors -/

/-- **What lacks its end can be completed**, in one way, by closing parentheses. -/
theorem existsUnique_closings {t : String} {expected : Expectation}
    (h : (readAll (tokenize t) : Except ReadError (List (Node ω))) = .error (.unexpectedEnd expected)) :
    ∃! count, 1 ≤ count ∧
      ∃ forms : List (Node ω), readAll (tokenize (t ++ closings count)) = .ok forms := by
  obtain ⟨left, hpos, hleft⟩ :=
    exists_closings_of_incomplete ((balance_fits t).incomplete_iff.mpr ⟨expected, h⟩)
  have hread : ∀ count, (∃ forms : List (Node ω), readAll (tokenize (t ++ closings count)) = .ok forms) ↔
      count = left := fun count => (balance_fits _).complete_iff.symm.trans (hleft count)
  exact ⟨left, ⟨hpos, (hread left).mpr rfl⟩, fun count hcount => (hread count).mp hcount.2⟩

/-- The span that is blamed is that of one parenthesis. -/
theorem span_of_readAll_unexpectedClose {t : String} {span : Span}
    (h : (readAll (tokenize t) : Except ReadError (List (Node ω))) = .error (.unexpectedClose span)) :
    span = ⟨span.start, span.start + 1⟩ := by
  cases readAll_blames h with
  | close mem =>
    have hstop : span.stop = span.start + 1 := (selects_closing mem).stop_eq
    rw [← hstop]

/-- **What is wrong stays wrong**, and the same parenthesis is to blame. -/
theorem readAll_append_of_unexpectedClose {t : String} {span : Span}
    (h : (readAll (tokenize t) : Except ReadError (List (Node ω))) = .error (.unexpectedClose span))
    (u : String) :
    (readAll (tokenize (t ++ u)) : Except ReadError (List (Node ω))) =
      .error (.unexpectedClose span) := by
  have hbalance : balance t = .unmatched span.start :=
    ((balance_fits (ω := ω) t).unmatched_iff span.start).mpr ⟨span, h, rfl⟩
  obtain ⟨found, hfound, hstart⟩ :=
    ((balance_fits (ω := ω) (t ++ u)).unmatched_iff span.start).mp (balance_append_of_unmatched hbalance u)
  have hsame : found = span := by
    rw [span_of_readAll_unexpectedClose hfound, hstart, ← span_of_readAll_unexpectedClose h]
  rw [hfound, hsame]

/-! ## 3. Forms -/

/-- Behind a last character of an atom, the longest run of such characters ends. -/
theorem exists_last_run {cs : List Char} {c : Char} (hc : c ∈ cs.getLast?) (hatom : isAtomChar c = true) :
    ∃ front run, cs = front ++ run ∧ run ≠ [] ∧ (∀ d ∈ run, isAtomChar d = true) ∧
      ∀ d ∈ front.getLast?, isAtomChar d = false := by
  refine ⟨cs.rdropWhile isAtomChar, cs.rtakeWhile isAtomChar,
    (List.rdropWhile_append_rtakeWhile ..).symm, ?_, fun d => List.mem_rtakeWhile_imp, fun d hd => ?_⟩
  · intro hnil
    obtain ⟨hne, rfl⟩ := List.mem_getLast?_eq_getLast hc
    exact List.rtakeWhile_eq_nil_iff.mp hnil hne hatom
  · obtain ⟨hne, rfl⟩ := List.mem_getLast?_eq_getLast hd
    exact Bool.eq_false_iff.mpr (List.rdropWhile_last_not _ _ hne)

/-- A last atom is a last form, wherever the tokens before it can be read. -/
theorem readAll_concat_atom (ts : List Token) (text : String) (span : Span) :
    (readAll (ts ++ [⟨.atom text, span⟩]) : Except ReadError (List (Node ω))) =
      (readAll ts).map (· ++ [.ofAtom text span]) := by
  rw [readAll, readAll, Nest.pushAll_append]
  cases (Nest.empty : Nest ω).pushAll ts with
  | error cause => rfl
  | ok nest =>
    obtain ⟨lists, forms⟩ := nest
    cases lists with
    | nil => exact congrArg Except.ok List.reverse_cons
    | cons inner outer => rfl

/-- Where no atom runs on, all forms stay. -/
theorem prefix_of_parted {as bs : List Char} (hparted : Parted as bs) {fs gs : List (Node ω)}
    (hfs : readAll (tokensFrom 0 as) = .ok fs) (hgs : readAll (tokensFrom 0 (as ++ bs)) = .ok gs) :
    fs <+: gs := by
  rw [tokensFrom_append hparted, readAll_append (readAll_eq_ok_iff.mp hfs)] at hgs
  cases hmore : (readAll (tokensFrom (0 + byteLength as) bs) : Except ReadError (List (Node ω))) with
  | error cause =>
    rw [hmore] at hgs
    cases hgs
  | ok more =>
    rw [hmore] at hgs
    exact ⟨more, Except.ok.inj hgs⟩

/-- **The forms of a text are the first ones of every text that goes on from it**, but for a last atom that
    its end touches. -/
theorem prefix_of_readAll_append {t u : String} {fs gs : List (Node ω)}
    (hfs : readAll (tokenize t) = .ok fs) (hgs : readAll (tokenize (t ++ u)) = .ok gs) :
    fs <+: gs ∨ ∃ front text span, fs = front ++ [.ofAtom text span] ∧ span.stop = t.utf8ByteSize ∧
      front <+: gs := by
  rw [tokenize, String.toList_append] at hgs
  by_cases hparted : Parted t.toList u.toList
  · exact .inl (prefix_of_parted hparted hfs hgs)
  · obtain ⟨c, hc, hatom⟩ : ∃ c ∈ t.toList.getLast?, isAtomChar c = true := by
      refine Classical.byContradiction fun hno => hparted fun c hc d _ hatom => ?_
      exact absurd ⟨c, hc, hatom⟩ hno
    obtain ⟨front, run, hrun, hne, hall, hfront⟩ := exists_last_run hc hatom
    -- before the run no atom runs on, whether the run is lengthened or not
    have hseam : ∀ bs, Parted front bs := parted_of_getLast? hfront
    have htokens : tokenize t = tokensFrom 0 front ++
        [⟨.atom (String.ofList run), ⟨byteLength front, byteLength front + byteLength run⟩⟩] := by
      rw [tokenize, hrun, tokensFrom_append (hseam run), tokensFrom_atom hne hall, Nat.zero_add]
    rw [htokens, readAll_concat_atom] at hfs
    rw [hrun, List.append_assoc] at hgs
    cases hbefore : (readAll (tokensFrom 0 front) : Except ReadError (List (Node ω))) with
    | error cause =>
      rw [hbefore] at hfs
      cases hfs
    | ok before =>
      rw [hbefore] at hfs
      refine .inr ⟨before, _, _, (Except.ok.inj hfs).symm, ?_, prefix_of_parted (hseam _) hbefore hgs⟩
      rw [← byteLength_toList, hrun, byteLength_append]

/-- **What a text settles about every text that goes on from it.** If all that is wrong with it is that it
    ends too early, it can be completed by closing parentheses, by one number of them and no other. If a
    parenthesis of it closes nothing, that parenthesis is to blame whatever follows. And if it can be read,
    its forms are the first ones of every text that goes on from it and can be read; only a last form that
    is an atom may be another one there, where the end of the text touches it. So more may be asked for in
    the first case, and in the second nothing helps. -/
theorem text_settles_continuations (t : String) :
    (∀ expected, (readAll (tokenize t) : Except ReadError (List (Node ω))) =
        .error (.unexpectedEnd expected) →
      ∃! count, 1 ≤ count ∧
        ∃ forms : List (Node ω), readAll (tokenize (t ++ closings count)) = .ok forms) ∧
    (∀ span, (readAll (tokenize t) : Except ReadError (List (Node ω))) =
        .error (.unexpectedClose span) →
      ∀ u : String, (readAll (tokenize (t ++ u)) : Except ReadError (List (Node ω))) =
        .error (.unexpectedClose span)) ∧
    ∀ fs : List (Node ω), readAll (tokenize t) = .ok fs →
      ∀ (u : String) (gs : List (Node ω)), readAll (tokenize (t ++ u)) = .ok gs →
        fs <+: gs ∨ ∃ front text span, fs = front ++ [.ofAtom text span] ∧
          span.stop = t.utf8ByteSize ∧ front <+: gs :=
  ⟨fun _ h => existsUnique_closings h, fun _ h u => readAll_append_of_unexpectedClose h u,
    fun _ hfs _ _ hgs => prefix_of_readAll_append hfs hgs⟩

/-- Of the first text two lists are open. In the second a parenthesis closes nothing, and an open list behind it
    changes nothing about that. The end of the third touches its last atom, and more of the atom follows. -/
theorem text_settles_continuations_of_touched :
    let list : Node Empty := .list [.symbol "f" ⟨1, 2⟩] ⟨0, 3⟩
    (readAll (ω := Empty) (tokenize "(define é (f") = .error (.unexpectedEnd .closing) ∧
      ∃! count, 1 ≤ count ∧
        ∃ forms : List (Node Empty), readAll (tokenize ("(define é (f" ++ closings count)) = .ok forms) ∧
    (readAll (ω := Empty) (tokenize "(f)) (g") = .error (.unexpectedClose ⟨3, 4⟩) ∧
      ∀ u : String, readAll (ω := Empty) (tokenize ("(f)) (g" ++ u)) = .error (.unexpectedClose ⟨3, 4⟩)) ∧
    (readAll (tokenize "(f) p") = .ok [list, .symbol "p" ⟨4, 5⟩] ∧
      readAll (tokenize ("(f) p" ++ "i")) = .ok [list, .symbol "pi" ⟨4, 6⟩]) ∧
    ([list, .symbol "p" ⟨4, 5⟩] <+: [list, .symbol "pi" ⟨4, 6⟩] ∨
      ∃ front text span, [list, .symbol "p" ⟨4, 5⟩] = front ++ [.ofAtom text span] ∧
        span.stop = "(f) p".utf8ByteSize ∧ front <+: [list, .symbol "pi" ⟨4, 6⟩]) := by
  intro list
  have hopen : readAll (ω := Empty) (tokenize "(define é (f") = .error (.unexpectedEnd .closing) := rfl
  have hclose : readAll (ω := Empty) (tokenize "(f)) (g") = .error (.unexpectedClose ⟨3, 4⟩) := rfl
  have hread : readAll (tokenize "(f) p") = .ok [list, .symbol "p" ⟨4, 5⟩] := rfl
  have hmore : readAll (tokenize ("(f) p" ++ "i")) = .ok [list, .symbol "pi" ⟨4, 6⟩] := rfl
  exact ⟨⟨hopen, (text_settles_continuations "(define é (f").1 _ hopen⟩,
    ⟨hclose, (text_settles_continuations "(f)) (g").2.1 _ hclose⟩, ⟨hread, hmore⟩,
    (text_settles_continuations "(f) p").2.2 _ hread "i" _ hmore⟩

end MiniLisp
