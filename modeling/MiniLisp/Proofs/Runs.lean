import MiniLisp.Proofs.Continuing

/-!
# Runs: where an atom begins and ends

An atom is a longest run of characters. This file takes a text apart along its runs, so that a proof about the
tokens of a text need not look at what touches what:

* `exists_first_run`: characters that begin in an atom begin in a longest run, as `exists_last_run` says it of
  their end;
* **`tokensFrom_run`**: a longest run is one token, between the tokens in front of it and those behind it. It is
  the first token if nothing is in front (`tokensFrom_first_run`) and the last if nothing is behind
  (`tokensFrom_last_run`);
* `textInduction`: a text is empty, or begins with a separator, a parenthesis or a longest run. What holds in these
  four cases holds of every text.
-/

namespace MiniLisp

theorem isAtomChar_eq_false_iff {c : Char} :
    isAtomChar c = false ↔ c ∈ [' ', '\t', '\n', '\r', '\x0c', '(', ')'] := by
  rw [← Bool.not_eq_true, isAtomChar_iff, not_not]

/-- In front of a first character of an atom, the longest run of such characters begins. -/
theorem exists_first_run {c : Char} (hatom : isAtomChar c = true) (cs : List Char) :
    ∃ run rest, c :: cs = run ++ rest ∧ run ≠ [] ∧ (∀ d ∈ run, isAtomChar d = true) ∧
      ∀ d ∈ rest.head?, isAtomChar d = false := by
  have hsplit : c :: cs = (c :: cs.takeWhile isAtomChar) ++ cs.dropWhile isAtomChar := by
    rw [List.cons_append, List.takeWhile_append_dropWhile]
  refine ⟨_, _, hsplit, List.cons_ne_nil _ _,
    List.forall_mem_cons.mpr ⟨hatom, List.all_eq_true.mp List.all_takeWhile⟩, fun d hd => ?_⟩
  have hne := List.head?_dropWhile_not isAtomChar cs
  rw [Option.mem_def.mp hd] at hne
  exact hne

/-- A longest run in front is the first token. -/
theorem tokensFrom_first_run {run rest : List Char} (hne : run ≠ []) (hrun : ∀ c ∈ run, isAtomChar c = true)
    (hrest : ∀ c ∈ rest.head?, isAtomChar c = false) (start : Nat) :
    tokensFrom start (run ++ rest) = ⟨.atom (String.ofList run), ⟨start, start + byteLength run⟩⟩ ::
      tokensFrom (start + byteLength run) rest := by
  have hbehind : Parted run rest := fun _ _ d hd _ => hrest d hd
  rw [tokensFrom_append hbehind, tokensFrom_atom hne hrun]
  rfl

/-- A longest run at the end is the last token. -/
theorem tokensFrom_last_run {front run : List Char} (hfront : ∀ c ∈ front.getLast?, isAtomChar c = false)
    (hne : run ≠ []) (hrun : ∀ c ∈ run, isAtomChar c = true) (start : Nat) :
    let first := start + byteLength front
    tokensFrom start (front ++ run) =
      tokensFrom start front ++ [⟨.atom (String.ofList run), ⟨first, first + byteLength run⟩⟩] := by
  rw [tokensFrom_append (parted_of_getLast? hfront run), tokensFrom_atom hne hrun]

/-- **A longest run is one token.** -/
theorem tokensFrom_run {front run rest : List Char} (hfront : ∀ c ∈ front.getLast?, isAtomChar c = false)
    (hne : run ≠ []) (hrun : ∀ c ∈ run, isAtomChar c = true) (hrest : ∀ c ∈ rest.head?, isAtomChar c = false)
    (start : Nat) :
    let first := start + byteLength front
    tokensFrom start (front ++ (run ++ rest)) = tokensFrom start front ++
      ⟨.atom (String.ofList run), ⟨first, first + byteLength run⟩⟩ ::
        tokensFrom (first + byteLength run) rest := by
  rw [tokensFrom_append (parted_of_getLast? hfront (run ++ rest)), tokensFrom_first_run hne hrun hrest]

/-- **Induction over a text by what it begins with.** -/
theorem textInduction {P : List Char → Prop} (nil : P [])
    (separator : ∀ c cs, isSeparator c = true → P cs → P (c :: cs))
    (paren : ∀ c cs, isParen c = true → P cs → P (c :: cs))
    (run : ∀ run rest, run ≠ [] → (∀ c ∈ run, isAtomChar c = true) →
      (∀ c ∈ rest.head?, isAtomChar c = false) → P rest → P (run ++ rest)) (cs : List Char) : P cs := by
  -- the rest of a run is shorter by more than one character
  induction hlength : cs.length using Nat.strongRecOn generalizing cs with
  | ind n ih =>
    subst hlength
    cases cs with
    | nil => exact nil
    | cons c cs =>
      have htail : P cs := ih cs.length (Nat.lt_succ_self _) cs rfl
      rcases char_cases c with hsep | rfl | rfl | hatom
      · exact separator c cs hsep htail
      · exact paren '(' cs rfl htail
      · exact paren ')' cs rfl htail
      · obtain ⟨first, rest, hsplit, hne, hrun, hrest⟩ := exists_first_run hatom cs
        have hshorter : rest.length < (c :: cs).length := by
          rw [hsplit, List.length_append]
          exact Nat.lt_add_of_pos_left (List.length_pos_of_ne_nil hne)
        rw [hsplit]
        exact run first rest hne hrun hrest (ih rest.length hshorter rest rfl)

end MiniLisp
