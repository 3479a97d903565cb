import MiniLisp.Proofs.Cutting

/-!
# Seams: the tokens of characters put together

Where two runs of characters meet, an atom may run on from the one into the other. This file fixes
where it does not:

* `Parted as bs`: at the seam, not both sides have a character of an atom;
* **`tokensFrom_append`**: at such a seam the tokens are those of the two sides, one after the other;
* `tokensFrom_atom`: characters of an atom, and no others, are one token;
* `tokensFrom_parens`: the tokens of what stands in parentheses.
-/

namespace MiniLisp

/-! ## 1. Seams -/

/-- One side is empty, or a character that belongs to no atom stands at the seam. -/
def Parted (as bs : List Char) : Prop :=
  ∀ c ∈ as.getLast?, ∀ d ∈ bs.head?, isAtomChar c = true → isAtomChar d = false

theorem parted_of_head {as bs : List Char} {d : Char} (hd : isAtomChar d = false) :
    Parted as (d :: bs) := by
  intro c _ e he _
  obtain rfl : d = e := Option.some.inj he
  exact hd

theorem parted_of_getLast? {as : List Char} (h : ∀ c ∈ as.getLast?, isAtomChar c = false) (bs : List Char) :
    Parted as bs := by
  intro c hc _ _ hatom
  rw [h c hc] at hatom
  cases hatom

/-- A part of the second side meets the first where the whole second side does. -/
theorem Parted.of_append {as bs more : List Char} (h : Parted as (bs ++ more)) : Parted as bs := by
  intro c hc d hd
  cases bs with
  | nil => cases hd
  | cons b bs => exact h c hc d hd

theorem Parted.of_cons {c : Char} {as bs : List Char} (h : Parted (c :: as) bs) : Parted as bs := by
  intro d hd
  cases as with
  | nil => cases hd
  | cons a as => exact h d (by rwa [List.getLast?_cons_cons])

/-! ## 2. Two sides -/

/-- Where the first character belongs to no atom, a first atom begins behind it. -/
theorem start_lt_of_not_atomChar {start : Nat} {cs : List Char}
    (h : ∀ c ∈ cs.head?, isAtomChar c = false) {text : String} {span : Span} {more : List Token}
    (hts : tokensFrom start cs = ⟨.atom text, span⟩ :: more) : start < span.start := by
  cases cs with
  | nil => cases hts
  | cons c cs =>
    have hc := h c rfl
    obtain hsep | rfl | rfl | hatom := char_cases c
    · rw [tokensFrom_cons, glue_separator hsep] at hts
      have hmem : ⟨.atom text, span⟩ ∈ tokensFrom (start + c.utf8Size) cs := by
        rw [hts]
        exact List.mem_cons_self
      have hle := (cut_tokensFrom (start + c.utf8Size) cs).start_le hmem
      exact Nat.lt_of_lt_of_le (Nat.lt_add_of_pos_right c.utf8Size_pos) hle
    · rw [tokensFrom_cons, glue_opening] at hts
      cases hts
    · rw [tokensFrom_cons, glue_closing] at hts
      cases hts
    · rw [hatom] at hc
      cases hc

/-- A character joins what stands behind it, and nothing behind that. -/
theorem glue_append (c : Char) (start : Nat) (ts us : List Token)
    (h : ts = [] → isAtomChar c = true → ∀ text span more, us = ⟨.atom text, span⟩ :: more →
      span.start ≠ start + c.utf8Size) :
    glue c start (ts ++ us) = glue c start ts ++ us := by
  obtain hsep | rfl | rfl | hatom := char_cases c
  · rw [glue_separator hsep, glue_separator hsep]
  · rw [glue_opening, glue_opening]
    rfl
  · rw [glue_closing, glue_closing]
    rfl
  · cases ts with
    | nil =>
      rw [List.nil_append, glue_nil hatom, glue_apart hatom (h rfl hatom)]
      rfl
    | cons t ts =>
      obtain ⟨lexeme, span⟩ := t
      obtain ⟨hsep, hop, hcl⟩ := isAtomChar_iff_not.mp hatom
      cases lexeme with
      | opening => simp [glue, hsep, hop, hcl]
      | closing => simp [glue, hsep, hop, hcl]
      | atom text =>
        by_cases hstop : span.start = start + c.utf8Size
        · simp [glue, hsep, hop, hcl, hstop]
        · simp [glue, hsep, hop, hcl, hstop]

/-- **Where no atom runs on, the tokens are those of the two sides.** -/
theorem tokensFrom_append {as bs : List Char} (h : Parted as bs) (start : Nat) :
    tokensFrom start (as ++ bs) =
      tokensFrom start as ++ tokensFrom (start + byteLength as) bs := by
  induction as generalizing start with
  | nil => rfl
  | cons c as ih =>
    have hlen : start + byteLength (c :: as) = start + c.utf8Size + byteLength as := by
      rw [byteLength_cons, Nat.add_assoc]
    rw [List.cons_append, tokensFrom_cons, tokensFrom_cons, ih h.of_cons, hlen]
    refine glue_append c start _ _ fun _ hatom text span more hus => Nat.ne_of_gt ?_
    cases as with
    | nil =>
      have hhead : ∀ d ∈ bs.head?, isAtomChar d = false := fun d hd => h c rfl d hd hatom
      exact start_lt_of_not_atomChar hhead hus
    | cons a as =>
      have hmem : ⟨.atom text, span⟩ ∈
          tokensFrom (start + c.utf8Size + byteLength (a :: as)) bs := by
        rw [hus]
        exact List.mem_cons_self
      have hle := (cut_tokensFrom _ bs).start_le hmem
      have hpos := a.utf8Size_pos
      rw [byteLength_cons] at hle
      show start + c.utf8Size < span.start
      have hle' : start + c.utf8Size + (a.utf8Size + byteLength as) ≤ span.start := hle
      omega

/-- No atom reaches over a separator. -/
theorem tokensFrom_separator {c : Char} (h : isSeparator c = true) (as bs : List Char) (start : Nat) :
    tokensFrom start (as ++ c :: bs) =
      tokensFrom start as ++ tokensFrom (start + byteLength as + c.utf8Size) bs := by
  have hatom : isAtomChar c = false := by simp [isAtomChar, h]
  rw [tokensFrom_append (parted_of_head hatom), tokensFrom_cons, glue_separator h]

/-! ## 3. One atom -/

/-- **Characters of an atom, and no others, are one token.** -/
theorem tokensFrom_atom {cs : List Char} (hne : cs ≠ []) (h : ∀ c ∈ cs, isAtomChar c = true)
    (start : Nat) :
    tokensFrom start cs = [⟨.atom (String.ofList cs), ⟨start, start + byteLength cs⟩⟩] := by
  induction cs generalizing start with
  | nil => exact absurd rfl hne
  | cons c cs ih =>
    have hc := h c List.mem_cons_self
    rw [tokensFrom_cons]
    cases cs with
    | nil =>
      rw [tokensFrom_nil, glue_nil hc]
      rfl
    | cons d cs =>
      have hrest : ∀ e ∈ d :: cs, isAtomChar e = true := fun e he => h e (List.mem_cons_of_mem _ he)
      rw [ih (List.cons_ne_nil d cs) hrest, glue_touching hc, toString_append_ofList,
        byteLength_cons c, ← Nat.add_assoc]

/-! ## 4. Parentheses -/

/-- No atom reaches over a parenthesis. -/
theorem tokensFrom_parens (start : Nat) (inside : List Char) :
    tokensFrom start ('(' :: (inside ++ [')'])) =
      ⟨.opening, ⟨start, start + 1⟩⟩ :: (tokensFrom (start + 1) inside ++
        [⟨.closing, ⟨start + 1 + byteLength inside, start + 1 + byteLength inside + 1⟩⟩]) := by
  rw [tokensFrom_cons, glue_opening]
  show _ :: tokensFrom (start + 1) _ = _
  rw [tokensFrom_append (parted_of_head rfl), tokensFrom_cons, glue_closing]
  rfl

end MiniLisp
