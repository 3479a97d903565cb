import MiniLisp.Proofs.Layout
import MiniLisp.Proofs.Runs

/-!
# Pieces: the tokens of a text by splitting it

The tokens of a text can be had without a look at places: each parenthesis is set apart by blanks, and the text
is split at the separators. This file fixes that the tokens that are cut are the pieces:

* `setApart`, `pieces`: the two steps. The first makes the text longer, so no token stays where it is;
* `pieces_append_separator`, `pieces_run`: a separator parts the pieces, and a run without one is a piece;
* `isSeparator_head_spaceOut`: when the parentheses are set apart, an atom ends at a separator, so what was a
  longest run without parentheses is one without separators;
* **`tokens_are_pieces`**: the result, by induction over what a text begins with.
-/

namespace MiniLisp

/-! ## 1. Splitting -/

/-- Every such parenthesis between two blanks of its own. -/
def setApart (paren : Char) (cs : List Char) : List Char :=
  cs.flatMap fun c => if c = paren then [' ', c, ' '] else [c]

/-- The parts of a text between separators, where there is something between them. -/
def pieces (cs : List Char) : List (List Char) := (cs.splitOnP isSeparator).filter (· ≠ [])

@[simp] theorem pieces_nil : pieces [] = [] := rfl

/-- **A separator parts the pieces.** -/
theorem pieces_append_separator {c : Char} (h : isSeparator c = true) (as bs : List Char) :
    pieces (as ++ c :: bs) = pieces as ++ pieces bs := by
  rw [pieces, List.splitOnP_append_cons as bs h, List.filter_append]
  rfl

theorem pieces_separator {c : Char} (h : isSeparator c = true) (cs : List Char) :
    pieces (c :: cs) = pieces cs := pieces_append_separator h [] cs

/-- **A run without a separator is a piece**, if a separator follows or nothing. -/
theorem pieces_run {run rest : List Char} (hne : run ≠ []) (hrun : ∀ c ∈ run, isSeparator c = false)
    (hrest : ∀ c ∈ rest.head?, isSeparator c = true) : pieces (run ++ rest) = run :: pieces rest := by
  have hsingle : pieces run = [run] := by
    rw [pieces, List.splitOnP_eq_singleton hrun]
    simp [hne]
  cases rest with
  | nil => rw [List.append_nil, hsingle, pieces_nil]
  | cons c rest =>
    have hc := hrest c rfl
    rw [pieces_append_separator hc, pieces_separator hc, hsingle]
    rfl

/-! ## 2. Parentheses set apart -/

theorem setApart_append (paren : Char) (as bs : List Char) :
    setApart paren (as ++ bs) = setApart paren as ++ setApart paren bs := List.flatMap_append

/-- Both parentheses set apart, one kind after the other. -/
def spaceOut (cs : List Char) : List Char := setApart ')' (setApart '(' cs)

theorem spaceOut_append (as bs : List Char) : spaceOut (as ++ bs) = spaceOut as ++ spaceOut bs := by
  rw [spaceOut, setApart_append, setApart_append]
  rfl

theorem spaceOut_cons (c : Char) (cs : List Char) : spaceOut (c :: cs) = spaceOut [c] ++ spaceOut cs :=
  spaceOut_append [c] cs

theorem spaceOut_paren {c : Char} (h : isParen c = true) : spaceOut [c] = [' ', c, ' '] := by
  simp only [isParen, Bool.or_eq_true, decide_eq_true_eq] at h
  rcases h with rfl | rfl <;> rfl

theorem spaceOut_other {c : Char} (h : isParen c = false) : spaceOut [c] = [c] := by
  simp only [isParen, Bool.or_eq_false_iff, decide_eq_false_iff_not] at h
  simp [spaceOut, setApart, h]

/-- Nothing is done to characters without a parenthesis among them. -/
theorem spaceOut_of_notParen {cs : List Char} (h : ∀ c ∈ cs, isParen c = false) : spaceOut cs = cs := by
  induction cs with
  | nil => rfl
  | cons c cs ih =>
    obtain ⟨hc, hcs⟩ := List.forall_mem_cons.mp h
    rw [spaceOut_cons, spaceOut_other hc, ih hcs]
    rfl

/-- Where no atom begins, a separator stands in front when the parentheses are set apart. -/
theorem isSeparator_head_spaceOut {cs : List Char} (h : ∀ c ∈ cs.head?, isAtomChar c = false) :
    ∀ c ∈ (spaceOut cs).head?, isSeparator c = true := by
  cases cs with
  | nil => nofun
  | cons c cs =>
    intro d hd
    rw [spaceOut_cons] at hd
    cases hparen : isParen c with
    | true =>
      rw [spaceOut_paren hparen] at hd
      cases hd
      rfl
    | false =>
      have hatom := h c rfl
      rw [spaceOut_other hparen] at hd
      cases hd
      simpa [isAtomChar, hparen] using hatom

/-! ## 3. Tokens -/

theorem map_text_glue_paren {c : Char} (h : isParen c = true) (start : Nat) (rest : List Token) :
    (glue c start rest).map Token.text = String.ofList [c] :: rest.map Token.text := by
  simp only [isParen, Bool.or_eq_true, decide_eq_true_eq] at h
  rcases h with rfl | rfl <;> rfl

/-- The tokens of characters and the pieces of them are written alike. -/
theorem map_text_tokensFrom (start : Nat) (cs : List Char) :
    (tokensFrom start cs).map Token.text = (pieces (spaceOut cs)).map String.ofList := by
  induction cs using textInduction generalizing start with
  | nil => rfl
  | separator c cs hsep ih =>
    rw [tokensFrom_cons, glue_separator hsep, ih, spaceOut_cons, spaceOut_other (isParen_of_separator hsep),
      List.singleton_append, pieces_separator hsep]
  | paren c cs hparen ih =>
    have hsep : isSeparator c = false :=
      Bool.eq_false_iff.mpr fun h => by
        rw [isParen_of_separator h] at hparen
        cases hparen
    have hpiece : pieces (spaceOut (c :: cs)) = [c] :: pieces (spaceOut cs) := by
      have hchars : spaceOut (c :: cs) = ' ' :: ([c] ++ ' ' :: spaceOut cs) := by
        rw [spaceOut_cons, spaceOut_paren hparen]
        rfl
      have hblank : ∀ d ∈ (' ' :: spaceOut cs).head?, isSeparator d = true := by
        intro d hd
        cases hd
        rfl
      rw [hchars, pieces_separator rfl, pieces_run (List.cons_ne_nil c [])
        (List.forall_mem_singleton.mpr hsep) hblank, pieces_separator rfl]
    rw [tokensFrom_cons, map_text_glue_paren hparen, ih, hpiece]
    rfl
  | run run rest hne hrun hrest ih =>
    have hsep : ∀ c ∈ run, isSeparator c = false := fun c hc => (isAtomChar_iff_not.mp (hrun c hc)).1
    have hparen : ∀ c ∈ run, isParen c = false := fun c hc => isParen_of_atomChar (hrun c hc)
    rw [tokensFrom_first_run hne hrun hrest, List.map_cons, ih, spaceOut_append, spaceOut_of_notParen hparen,
      pieces_run hne hsep (isSeparator_head_spaceOut hrest)]
    rfl

/-- **The tokens of a text are the pieces it is split into**: every opening parenthesis is written with a blank
    on either side, then every closing one is, the result is split at the five separators, and empty pieces
    are left out. -/
theorem tokens_are_pieces (text : String) :
    tokenTexts text =
      (((setApart ')' (setApart '(' text.toList)).splitOnP (· ∈ [' ', '\t', '\n', '\r', '\x0c'])).filter
        (· ≠ [])).map String.ofList := by
  have hseparators : (fun c : Char => decide (c ∈ [' ', '\t', '\n', '\r', '\x0c'])) = isSeparator := by
    funext c
    rw [Bool.eq_iff_iff, decide_eq_true_eq, isSeparator_iff]
  rw [hseparators]
  exact map_text_tokensFrom 0 text.toList

/-- Blanks that are no separators stay in their piece. -/
example : tokenTexts "((a)\u00a0b)\tc" = ["(", "(", "a", ")", "\u00a0b", ")", "c"] := by decide

end MiniLisp
