import MiniLisp.Node
import MiniLisp.Proofs.Limits
import MiniLisp.Proofs.Numbers

/-!
# Literals: which atoms are numbers

An atom is read as a number by functions that take it apart from the front. This file says which atoms that
are without these functions:

* `Literal.Denotes`: the grammar of literals, with the decimal that each of them denotes, exactly: a sign, digits
  with a point, an exponent. There is no bound on the length of any part;
* `Literal.exponent?_eq_some_iff`, `Literal.decimal?_eq_some_iff`, **`Literal.ofChars?_eq_finite_iff`**: each
  function reads what its part of the grammar has, and nothing else;
* `Number.exists_finite?_iff`: what is read as a finite number is a literal that is not too great for one;
* `Literal.Denotes.exists_isDigit`: a literal has a digit, which the words for infinity and for what is no
  number have not;
* **`atom_is_number_iff`**: the result. Every other atom is a symbol.
-/

namespace MiniLisp

namespace Literal

/-! ## 1. The grammar -/

/-- A plus, a minus or nothing: whether it is a minus. -/
inductive IsSign : List Char → Bool → Prop
  | none : IsSign [] false
  | plus : IsSign ['+'] false
  | minus : IsSign ['-'] true

/-- One digit or more, and the number they are the digits of. -/
structure IsDigits (digits : List Char) (n : Nat) : Prop where
  nonempty : digits ≠ []
  isDigit : ∀ c ∈ digits, c.isDigit = true
  value : Nat.ofDigitChars 10 digits 0 = n

/-- Digits with at most one point in front of, among or behind them, and the decimal they denote. -/
inductive IsNumeral : List Char → Decimal → Prop
  | whole {digits : List Char} {n : Nat} (h : IsDigits digits n) : IsNumeral digits ⟨n, 0⟩
  | pointed {before behind : List Char} {n : Nat} (h : IsDigits (before ++ behind) n) :
      IsNumeral (before ++ '.' :: behind) ⟨n, -behind.length⟩

/-- Nothing, or an `e` with digits behind it, which may have a sign, and the power of ten it stands for. -/
inductive IsExponent : List Char → Int → Prop
  | none : IsExponent [] 0
  | marked {mark : Char} {sign digits : List Char} {negative : Bool} {n : Nat}
      (hmark : mark = 'e' ∨ mark = 'E') (hsign : IsSign sign negative) (hdigits : IsDigits digits n) :
      IsExponent (mark :: (sign ++ digits)) (if negative then -(n : Int) else n)

/-- A numeral with its exponent, and nothing else. -/
inductive IsUnsigned : List Char → Decimal → Prop
  | mk {numeral exponent : List Char} {d : Decimal} {e : Int} (hnumeral : IsNumeral numeral d)
      (hexponent : IsExponent exponent e) : IsUnsigned (numeral ++ exponent) ⟨d.digits, d.exponent + e⟩

/-- **The written forms of a finite number**: whether it has a minus in front, and its magnitude, exactly. -/
inductive Denotes : List Char → Bool → Decimal → Prop
  | mk {sign body : List Char} {negative : Bool} {d : Decimal} (hsign : IsSign sign negative)
      (hbody : IsUnsigned body d) : Denotes (sign ++ body) negative d

/-! ## 2. Signs and digits -/

/-- A sign that is taken off was there. -/
theorem exists_isSign (cs : List Char) :
    ∃ sign, IsSign sign (splitSign cs).1 ∧ cs = sign ++ (splitSign cs).2 := by
  unfold splitSign
  split
  · exact ⟨_, .minus, rfl⟩
  · exact ⟨_, .plus, rfl⟩
  · exact ⟨_, .none, rfl⟩

/-- A sign is taken off what begins with a digit or a point. -/
theorem splitSign_append {sign cs : List Char} {negative : Bool} (h : IsSign sign negative)
    (hcs : ∀ c ∈ cs.head?, c.isDigit = true ∨ c = '.') : splitSign (sign ++ cs) = (negative, cs) := by
  cases h with
  | plus => rfl
  | minus => rfl
  | none =>
    cases cs with
    | nil => rfl
    | cons c cs =>
      rcases hcs c rfl with hdigit | rfl
      · exact splitSign_of_isDigit hdigit cs
      · rfl

/-- Digits are read as digits, and nothing else is. -/
theorem digits?_eq_some_iff {cs : List Char} {n : Nat} : digits? cs = some n ↔ IsDigits cs n := by
  unfold digits?
  constructor
  · intro h
    split at h
    · rename_i hcs
      exact ⟨hcs.1, List.all_eq_true.mp hcs.2, Option.some.inj h⟩
    · cases h
  · intro h
    rw [if_pos ⟨h.nonempty, List.all_eq_true.mpr h.isDigit⟩, h.value]

/-- Digits begin with a digit. -/
theorem IsDigits.head {cs : List Char} {n : Nat} (h : IsDigits cs n) :
    ∀ c ∈ cs.head?, c.isDigit = true := fun c hc => h.isDigit c (List.mem_of_head? hc)

/-! ## 3. Exponents -/

theorem exponent?_marked {mark : Char} (h : mark = 'e' ∨ mark = 'E') (cs : List Char) :
    exponent? (mark :: cs) = (digits? (splitSign cs).2).map fun n : Nat =>
      if (splitSign cs).1 then -(n : Int) else (n : Int) := by
  simp only [exponent?]
  rw [if_pos h]
  generalize splitSign cs = taken
  cases digits? taken.2 <;> rfl

theorem exponent?_unmarked {mark : Char} (h : ¬ (mark = 'e' ∨ mark = 'E')) (cs : List Char) :
    exponent? (mark :: cs) = none := if_neg h

/-- **What is read behind the digits is an exponent**, and every exponent is read. -/
theorem exponent?_eq_some_iff {cs : List Char} {e : Int} : exponent? cs = some e ↔ IsExponent cs e := by
  constructor
  · intro h
    cases cs with
    | nil =>
      cases h
      exact .none
    | cons mark cs =>
      by_cases hmark : mark = 'e' ∨ mark = 'E'
      · obtain ⟨sign, hsign, hcs⟩ := exists_isSign cs
        rw [exponent?_marked hmark] at h
        obtain ⟨n, hn, rfl⟩ := Option.map_eq_some_iff.mp h
        have hexponent := IsExponent.marked hmark hsign (digits?_eq_some_iff.mp hn)
        rw [← hcs] at hexponent
        exact hexponent
      · rw [exponent?_unmarked hmark] at h
        cases h
  · intro h
    cases h with
    | none => rfl
    | marked hmark hsign hdigits =>
      rw [exponent?_marked hmark, splitSign_append hsign fun c hc => .inl (hdigits.head c hc),
        digits?_eq_some_iff.mpr hdigits]
      rfl

/-- Nothing of an exponent can be taken for a part of the digits. -/
theorem IsExponent.head {cs : List Char} {e : Int} (h : IsExponent cs e) :
    ∀ c ∈ cs.head?, c.isDigit = false ∧ c ≠ '.' := by
  intro c hc
  cases h with
  | none => cases hc
  | marked hmark _ _ =>
    cases hc
    rcases hmark with rfl | rfl <;> decide

/-! ## 4. Numerals -/

/-- A run of digits ends where no digit follows. -/
theorem takeWhile_isDigit {digits rest : List Char} (h : ∀ c ∈ digits, c.isDigit = true)
    (hrest : ∀ c ∈ rest.head?, c.isDigit = false) : (digits ++ rest).takeWhile Char.isDigit = digits := by
  rw [List.takeWhile_append_of_pos h]
  cases rest with
  | nil => exact List.append_nil _
  | cons c rest =>
    rw [List.takeWhile_cons_of_neg (Bool.eq_false_iff.mp (hrest c rfl)), List.append_nil]

theorem dropWhile_isDigit {digits rest : List Char} (h : ∀ c ∈ digits, c.isDigit = true)
    (hrest : ∀ c ∈ rest.head?, c.isDigit = false) : (digits ++ rest).dropWhile Char.isDigit = rest := by
  rw [List.dropWhile_append_of_pos h]
  cases rest with
  | nil => rfl
  | cons c rest => exact List.dropWhile_cons_of_neg (Bool.eq_false_iff.mp (hrest c rfl))

/-- Without a point there is no fraction. -/
theorem splitFraction_of_head {cs : List Char} (h : ∀ c ∈ cs.head?, c ≠ '.') :
    splitFraction cs = ([], cs) := by
  unfold splitFraction
  split
  · exact absurd rfl (h '.' rfl)
  · rfl

/-- A decimal without a point. -/
theorem decimal?_whole {digits rest : List Char} (h : ∀ c ∈ digits, c.isDigit = true)
    (hrest : ∀ c ∈ rest.head?, c.isDigit = false ∧ c ≠ '.') :
    decimal? (digits ++ rest) = if digits = [] then none else
      (exponent? rest).map fun e => ⟨Nat.ofDigitChars 10 digits 0, e⟩ := by
  have hend : ∀ c ∈ rest.head?, c.isDigit = false := fun c hc => (hrest c hc).1
  unfold decimal?
  simp only [takeWhile_isDigit h hend, dropWhile_isDigit h hend,
    splitFraction_of_head fun c hc => (hrest c hc).2, and_true, List.append_nil, List.length_nil,
    Nat.cast_zero, Int.sub_zero]

/-- A decimal with a point. -/
theorem decimal?_pointed {before behind rest : List Char} (h : ∀ c ∈ before ++ behind, c.isDigit = true)
    (hrest : ∀ c ∈ rest.head?, c.isDigit = false) :
    decimal? (before ++ '.' :: (behind ++ rest)) = if before ++ behind = [] then none else
      (exponent? rest).map fun e => ⟨Nat.ofDigitChars 10 (before ++ behind) 0, e - behind.length⟩ := by
  have hbefore : ∀ c ∈ before, c.isDigit = true := fun c hc => h c (List.mem_append_left _ hc)
  have hbehind : ∀ c ∈ behind, c.isDigit = true := fun c hc => h c (List.mem_append_right _ hc)
  have hpoint : ∀ c ∈ ('.' :: (behind ++ rest)).head?, c.isDigit = false := by
    intro c hc
    cases hc
    rfl
  unfold decimal?
  simp only [takeWhile_isDigit hbefore hpoint, dropWhile_isDigit hbefore hpoint, splitFraction,
    takeWhile_isDigit hbehind hrest, dropWhile_isDigit hbehind hrest, List.append_eq_nil_iff]

/-- Characters that are taken apart at the first one that is no digit. -/
theorem exists_digits (cs : List Char) :
    ∃ digits rest, cs = digits ++ rest ∧ (∀ c ∈ digits, c.isDigit = true) ∧
      ∀ c ∈ rest.head?, c.isDigit = false := by
  refine ⟨cs.takeWhile Char.isDigit, cs.dropWhile Char.isDigit, List.takeWhile_append_dropWhile.symm,
    List.all_eq_true.mp List.all_takeWhile, fun c hc => ?_⟩
  have hne := List.head?_dropWhile_not Char.isDigit cs
  rw [Option.mem_def.mp hc] at hne
  exact hne

/-- **What is read without a sign is a numeral with its exponent**, and every such one is read. -/
theorem decimal?_eq_some_iff {cs : List Char} {d : Decimal} : decimal? cs = some d ↔ IsUnsigned cs d := by
  constructor
  · intro h
    obtain ⟨before, after, rfl, hbefore, hafter⟩ := exists_digits cs
    by_cases hpoint : ∃ more, after = '.' :: more
    · obtain ⟨more, rfl⟩ := hpoint
      obtain ⟨behind, rest, rfl, hbehind, hrest⟩ := exists_digits more
      have hdigits : ∀ c ∈ before ++ behind, c.isDigit = true :=
        List.forall_mem_append.mpr ⟨hbefore, hbehind⟩
      rw [decimal?_pointed hdigits hrest] at h
      split at h
      · cases h
      · rename_i hne
        obtain ⟨e, he, rfl⟩ := Option.map_eq_some_iff.mp h
        have hunsigned := IsUnsigned.mk (.pointed ⟨hne, hdigits, rfl⟩) (exponent?_eq_some_iff.mp he)
        rw [List.append_assoc, List.cons_append, Int.add_comm, ← Int.sub_eq_add_neg] at hunsigned
        exact hunsigned
    · have hrest : ∀ c ∈ after.head?, c.isDigit = false ∧ c ≠ '.' := by
        refine fun c hc => ⟨hafter c hc, fun hdot => hpoint ?_⟩
        cases after with
        | nil => cases hc
        | cons b more =>
          cases hc
          exact ⟨more, congrArg (· :: more) hdot⟩
      rw [decimal?_whole hbefore hrest] at h
      split at h
      · cases h
      · rename_i hne
        obtain ⟨e, he, rfl⟩ := Option.map_eq_some_iff.mp h
        have hunsigned := IsUnsigned.mk (.whole ⟨hne, hbefore, rfl⟩) (exponent?_eq_some_iff.mp he)
        rw [Int.zero_add] at hunsigned
        exact hunsigned
  · intro h
    cases h with
    | mk hnumeral hexponent =>
      have hend := hexponent.head
      cases hnumeral with
      | whole hdigits =>
        rw [decimal?_whole hdigits.isDigit hend, if_neg hdigits.nonempty,
          exponent?_eq_some_iff.mpr hexponent, hdigits.value, Int.zero_add]
        rfl
      | pointed hdigits =>
        rw [List.append_assoc, List.cons_append,
          decimal?_pointed hdigits.isDigit fun c hc => (hend c hc).1, if_neg hdigits.nonempty,
          exponent?_eq_some_iff.mpr hexponent, hdigits.value, Int.add_comm, ← Int.sub_eq_add_neg]
        rfl

/-- What has no sign begins with a digit or a point. -/
theorem IsUnsigned.exists_cons {cs : List Char} {d : Decimal} (h : IsUnsigned cs d) :
    ∃ c rest, cs = c :: rest ∧ (c.isDigit = true ∨ c = '.') := by
  cases h with
  | mk hnumeral hexponent =>
    cases hnumeral with
    | whole hdigits =>
      obtain ⟨c, digits, rfl⟩ := List.exists_cons_of_ne_nil hdigits.nonempty
      exact ⟨c, _, rfl, .inl (hdigits.head c rfl)⟩
    | pointed hdigits =>
      rename_i before behind _
      cases before with
      | nil => exact ⟨'.', _, rfl, .inr rfl⟩
      | cons c before => exact ⟨c, _, rfl, .inl (hdigits.head c rfl)⟩

/-! ## 5. Literals -/

/-- The words are no decimals. -/
theorem word?_ne_finite (cs : List Char) (d : Decimal) : word? cs ≠ some (.finite d) := by
  simp only [word?]
  split
  · nofun
  · split <;> nofun

theorem magnitude?_eq_finite_iff {cs : List Char} {d : Decimal} :
    magnitude? cs = some (.finite d) ↔ decimal? cs = some d := by
  unfold magnitude?
  cases decimal? cs with
  | none => exact iff_of_false (word?_ne_finite cs d) nofun
  | some found => simp

/-- **A literal of a finite magnitude is read exactly where the grammar has it.** -/
theorem ofChars?_eq_finite_iff {cs : List Char} {negative : Bool} {d : Decimal} :
    ofChars? cs = some ⟨negative, .finite d⟩ ↔ Denotes cs negative d := by
  have hofChars : ofChars? cs = (magnitude? (splitSign cs).2).map (Literal.mk (splitSign cs).1) := rfl
  rw [hofChars]
  constructor
  · intro h
    obtain ⟨sign, hsign, hcs⟩ := exists_isSign cs
    obtain ⟨magnitude, hmagnitude, hliteral⟩ := Option.map_eq_some_iff.mp h
    obtain ⟨hnegative, rfl⟩ := Literal.mk.inj hliteral
    have hbody := decimal?_eq_some_iff.mp (magnitude?_eq_finite_iff.mp hmagnitude)
    have hdenotes := Denotes.mk hsign hbody
    rw [← hcs, hnegative] at hdenotes
    exact hdenotes
  · intro h
    cases h with
    | mk hsign hbody =>
      obtain ⟨c, rest, hc, hfirst⟩ := hbody.exists_cons
      have hhead : ∀ b ∈ (c :: rest).head?, b.isDigit = true ∨ b = '.' := by
        intro b hb
        cases hb
        exact hfirst
      rw [← hc] at hhead
      rw [splitSign_append hsign hhead, magnitude?_eq_finite_iff.mpr (decimal?_eq_some_iff.mpr hbody)]
      rfl

end Literal

/-! ## 6. Numbers -/

/-- **The texts that are read as a finite number**: what they denote is not too great for one. -/
theorem Number.exists_finite?_iff {text : String} :
    (∃ x, finite? text = some x) ↔
      ∃ negative d, Literal.Denotes text.toList negative d ∧ d.value < 2 ^ 1024 - 2 ^ 970 := by
  constructor
  · rintro ⟨x, hx⟩
    unfold finite? at hx
    split at hx
    · rename_i l hl
      dsimp only at hx
      split at hx
      · rename_i hlt
        obtain ⟨negative, magnitude⟩ := l
        cases magnitude with
        | finite d =>
          exact ⟨negative, d, Literal.ofChars?_eq_finite_iff.mp hl, d.nearestBits_lt_infinityBits_iff.mp hlt⟩
        | infinite => exact absurd hlt (Nat.lt_irrefl _)
        | undefined => exact absurd hlt (show ¬ undefinedBits < Double.infinityBits by decide)
      · cases hx
    · cases hx
  · rintro ⟨negative, d, hdenotes, hvalue⟩
    refine ⟨Double.ofBits negative d.nearestBits, ?_⟩
    unfold finite?
    rw [Literal.ofChars?_eq_finite_iff.mpr hdenotes]
    exact if_pos (d.nearestBits_lt_infinityBits_iff.mpr hvalue)

/-! ## 7. Atoms -/

namespace Literal

/-- A literal of a finite number has a digit. -/
theorem Denotes.exists_isDigit {cs : List Char} {negative : Bool} {d : Decimal} (h : Denotes cs negative d) :
    ∃ c ∈ cs, c.isDigit = true := by
  have hdigits : ∀ {digits : List Char} {n : Nat}, IsDigits digits n → ∃ c ∈ digits, c.isDigit = true := by
    intro digits n h
    obtain ⟨c, hc⟩ := List.exists_mem_of_ne_nil digits h.nonempty
    exact ⟨c, hc, h.isDigit c hc⟩
  cases h with
  | mk hsign hbody =>
    cases hbody with
    | mk hnumeral hexponent =>
      cases hnumeral with
      | whole h =>
        obtain ⟨c, hc, hdigit⟩ := hdigits h
        exact ⟨c, by simp [hc], hdigit⟩
      | pointed h =>
        obtain ⟨c, hc, hdigit⟩ := hdigits h
        rcases List.mem_append.mp hc with hc | hc
        · exact ⟨c, by simp [hc], hdigit⟩
        · exact ⟨c, by simp [hc], hdigit⟩

/-- A digit has no other letter case. -/
theorem toLower_of_isDigit {c : Char} (h : c.isDigit = true) : c.toLower = c := by
  unfold Char.isDigit at h
  simp only [Bool.and_eq_true, decide_eq_true_eq] at h
  unfold Char.toLower
  refine dif_neg fun hupper => ?_
  have hcodes : 'A'.val ≤ '9'.val := UInt32.le_trans hupper.1 h.2
  exact absurd hcodes (by decide)

/-- The words for what is not finite have no digit, in any letter case, and neither has a sign. -/
theorem not_denotes_word {cs sign word : List Char} {negative : Bool} (hsign : IsSign sign negative)
    (hcs : cs = sign ++ word)
    (hword : String.ofList (word.map Char.toLower) ∈ ["", "inf", "infinity", "nan"]) (found : Bool) (d : Decimal) :
    ¬ Denotes cs found d := by
  intro h
  obtain ⟨c, hc, hdigit⟩ := h.exists_isDigit
  rw [hcs, List.mem_append] at hc
  rcases hc with hc | hc
  · cases hsign with
    | none => cases hc
    | plus =>
      cases List.mem_singleton.mp hc
      cases hdigit
    | minus =>
      cases List.mem_singleton.mp hc
      cases hdigit
  · have hmem : c ∈ (String.ofList (word.map Char.toLower)).toList := by
      rw [String.toList_ofList]
      exact List.mem_map.mpr ⟨c, hc, toLower_of_isDigit hdigit⟩
    have hwords : ∀ w ∈ ["", "inf", "infinity", "nan"], w.toList.any Char.isDigit = false := by decide
    exact List.any_eq_false.mp (hwords _ hword) c hmem hdigit

end Literal

variable {ω : Type}

/-- **Which atoms are numbers.** An atom is a number exactly if it is a literal, a sign or none and then digits
    with at most one point and perhaps an exponent, whose exact value without the sign is less than
    `2 ^ 1024 - 2 ^ 970`, however many digits there are and however great the exponent is. Every other atom is
    a symbol with all its characters; so are the words for what is not finite, in any letter case and with
    any sign, and the empty text. -/
theorem atom_is_number_iff (text : String) (span : Span) :
    ((∃ x, (Node.ofAtom text span : Node ω) = .number x span) ↔
      ∃ negative d, Literal.Denotes text.toList negative d ∧ d.value < 2 ^ 1024 - 2 ^ 970) ∧
    ((¬ ∃ negative d, Literal.Denotes text.toList negative d ∧ d.value < 2 ^ 1024 - 2 ^ 970) →
      (Node.ofAtom text span : Node ω) = .symbol text span) ∧
    ∀ sign negative word, Literal.IsSign sign negative → text.toList = sign ++ word →
      String.ofList (word.map Char.toLower) ∈ ["", "inf", "infinity", "nan"] →
      (Node.ofAtom text span : Node ω) = .symbol text span := by
  have hsymbol : (¬ ∃ negative d, Literal.Denotes text.toList negative d ∧ d.value < 2 ^ 1024 - 2 ^ 970) →
      (Node.ofAtom text span : Node ω) = .symbol text span := by
    intro hno
    have hnone : Number.finite? text = none :=
      Option.eq_none_iff_forall_ne_some.mpr fun x hx => hno (Number.exists_finite?_iff.mp ⟨x, hx⟩)
    rw [Node.ofAtom, hnone]
  refine ⟨?number, hsymbol, fun sign negative word hsign htext hword => hsymbol ?word⟩
  case number =>
    rw [← Number.exists_finite?_iff, Node.ofAtom]
    cases Number.finite? text with
    | none => exact iff_of_false nofun nofun
    | some x => exact iff_of_true ⟨x, rfl⟩ ⟨x, rfl⟩
  case word =>
    rintro ⟨found, d, hdenotes, _⟩
    exact Literal.not_denotes_word hsign htext hword found d hdenotes

/-- An exponent of any size is harmless behind zeros, and a leading zero is no part of the value. -/
example : (Number.finite? "0.00e+99999999999999999999").isSome = true ∧
    (Number.finite? "00017976931348623158e292").isSome = true ∧
    (Number.finite? "00017976931348623159e292").isSome = false := by decide +kernel

end MiniLisp
