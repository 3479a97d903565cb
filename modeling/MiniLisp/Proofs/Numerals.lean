import MiniLisp.Proofs.Rounding
import MiniLisp.Decimal.Literal

/-!
# Numerals: what is written for a decimal reads back

A decimal is written in positional notation. This file follows its digits through both directions:

* `Decimal.Numeral whole frac d`: the digits `whole`, with the digits `frac` behind a point, are one
  way to write `d`;
* `Decimal.exists_numeral`: what is written for a decimal is such a numeral, although the zeros at
  the end of the fraction are left out;
* `Literal.decimal?_numeral`: every numeral is read as a decimal of the same value;
* **`Literal.nearestBits_decimal?_chars`**: so what is written for a decimal reads as one that goes
  to the same double.
-/

namespace MiniLisp

-- Powers of natural numbers are the power function of core, whatever else is in scope.
attribute [local instance (2000)] instPowNat

namespace Decimal

/-! ## 1. Numerals -/

/-- A point with digits behind it, or nothing where there are none. -/
def pointed : List Char → List Char
  | [] => []
  | c :: cs => '.' :: c :: cs

/-- Digits before and behind the point that denote a decimal. -/
structure Numeral (whole frac : List Char) (d : Decimal) : Prop where
  nonempty : whole ≠ []
  isDigit : ∀ c ∈ whole ++ frac, c.isDigit = true
  value : Nat.ofDigitChars 10 (whole ++ frac) 0 * d.den = d.num * 10 ^ frac.length

/-! ## 2. Digits behind the point -/

theorem length_lastDigits {places : Nat} (h : 0 < places) (n : Nat) :
    (lastDigits places n).length = places := by
  have hlt : n % 10 ^ places < 10 ^ places := Nat.mod_lt _ (Nat.pow_pos (by decide))
  have hle := (Nat.length_toDigits_le_iff (by decide) h).mpr hlt
  unfold lastDigits
  simp only [List.length_append, List.length_replicate]
  omega

theorem ofDigitChars_lastDigits (places n : Nat) :
    Nat.ofDigitChars 10 (lastDigits places n) 0 = n % 10 ^ places := by
  unfold lastDigits
  simp only [Nat.ofDigitChars_append, Nat.ofDigitChars_replicate_zero, Nat.mul_zero,
    Nat.ofDigitChars_ten_toDigits]

theorem isDigit_of_mem_lastDigits {places n : Nat} {c : Char} (h : c ∈ lastDigits places n) :
    c.isDigit = true := by
  unfold lastDigits at h
  simp only [List.mem_append, List.mem_replicate] at h
  cases h with
  | inl h =>
    rw [h.2]
    rfl
  | inr h => exact Nat.isDigit_of_mem_toDigits (by decide) (by decide) h

/-- Only zeros are left out of the fraction. -/
theorem exists_lastDigits_eq {places : Nat} (h : 0 < places) (n : Nat) :
    ∃ zeros, lastDigits places n = fraction places n ++ List.replicate zeros '0' := by
  have hfrac : fraction places n = ((lastDigits places n).reverse.dropWhile (· = '0')).reverse :=
    if_neg (Nat.ne_of_gt h)
  have hsplit := List.takeWhile_append_dropWhile (p := (· = '0')) (l := (lastDigits places n).reverse)
  have hzeros : (lastDigits places n).reverse.takeWhile (· = '0') =
      List.replicate ((lastDigits places n).reverse.takeWhile (· = '0')).length '0' := by
    refine List.eq_replicate_iff.mpr ⟨rfl, fun c hc => ?_⟩
    have hall := List.all_eq_true.mp List.all_takeWhile c hc
    exact of_decide_eq_true hall
  refine ⟨((lastDigits places n).reverse.takeWhile (· = '0')).length, ?_⟩
  rw [hfrac, ← List.reverse_replicate, ← hzeros, ← List.reverse_append, hsplit, List.reverse_reverse]

/-! ## 3. What is written -/

/-- A decimal with places behind the point. -/
theorem numeral_fraction (digits n : Nat) :
    Numeral (Nat.toDigits 10 (digits / 10 ^ (n + 1))) (fraction (n + 1) digits)
      ⟨digits, .negSucc n⟩ := by
  obtain ⟨zeros, hzeros⟩ := exists_lastDigits_eq (Nat.succ_pos n) digits
  refine ⟨Nat.toDigits_ne_nil, fun c hc => ?_, ?_⟩
  · rw [List.mem_append] at hc
    cases hc with
    | inl hc => exact Nat.isDigit_of_mem_toDigits (by decide) (by decide) hc
    | inr hc =>
      have hmem : c ∈ lastDigits (n + 1) digits := by
        rw [hzeros]
        exact List.mem_append_left _ hc
      exact isDigit_of_mem_lastDigits hmem
  · generalize hw : Nat.toDigits 10 (digits / 10 ^ (n + 1)) = whole
    generalize fraction (n + 1) digits = frac at hzeros
    have hlen : frac.length + zeros = n + 1 := by
      have := length_lastDigits (Nat.succ_pos n) digits
      rw [hzeros, List.length_append, List.length_replicate] at this
      exact this
    -- With the zeros in their place again, the digits are those of the decimal.
    have hvalue : 10 ^ zeros * Nat.ofDigitChars 10 (whole ++ frac) 0 = digits := by
      calc 10 ^ zeros * Nat.ofDigitChars 10 (whole ++ frac) 0
          = Nat.ofDigitChars 10 (whole ++ lastDigits (n + 1) digits) 0 := by
            rw [hzeros, ← List.append_assoc, Nat.ofDigitChars_append (l := whole ++ frac),
              Nat.ofDigitChars_replicate_zero]
        _ = 10 ^ (n + 1) * (digits / 10 ^ (n + 1)) + digits % 10 ^ (n + 1) := by
            rw [Nat.ofDigitChars_append, Nat.ofDigitChars_eq_ofDigitChars_zero,
              length_lastDigits (Nat.succ_pos n), ofDigitChars_lastDigits, ← hw,
              Nat.ofDigitChars_ten_toDigits]
        _ = digits := Nat.div_add_mod digits _
    have hnum : num ⟨digits, .negSucc n⟩ = digits := Nat.mul_one digits
    have hden : den ⟨digits, .negSucc n⟩ = 10 ^ frac.length * 10 ^ zeros := by
      show 10 ^ (n + 1) = _
      rw [← Nat.pow_add, hlen]
    calc Nat.ofDigitChars 10 (whole ++ frac) 0 * den ⟨digits, .negSucc n⟩
        = 10 ^ zeros * Nat.ofDigitChars 10 (whole ++ frac) 0 * 10 ^ frac.length := by
          rw [hden, Nat.mul_comm (10 ^ zeros), Nat.mul_assoc, Nat.mul_comm (10 ^ zeros)]
      _ = num ⟨digits, .negSucc n⟩ * 10 ^ frac.length := by rw [hvalue, hnum]

/-- A decimal without places behind the point. -/
theorem numeral_whole (digits e : Nat) :
    Numeral (Nat.toDigits 10 (digits * 10 ^ e)) [] ⟨digits, .ofNat e⟩ := by
  refine ⟨Nat.toDigits_ne_nil, fun c hc => ?_, ?_⟩
  · rw [List.append_nil] at hc
    exact Nat.isDigit_of_mem_toDigits (by decide) (by decide) hc
  · have hden : den ⟨digits, .ofNat e⟩ = 1 := by
      show 10 ^ (-(e : Int)).toNat = 1
      rw [Int.toNat_neg_natCast]
    rw [List.append_nil, Nat.ofDigitChars_ten_toDigits, hden]
    rfl

/-- **What is written for a decimal is a numeral of it.** -/
theorem exists_numeral (d : Decimal) :
    ∃ whole frac, Numeral whole frac d ∧ d.chars = whole ++ pointed frac := by
  obtain ⟨digits, exponent⟩ := d
  cases exponent with
  | ofNat e => exact ⟨_, [], numeral_whole digits e, (List.append_nil _).symm⟩
  | negSucc n =>
    refine ⟨_, _, numeral_fraction digits n, ?_⟩
    unfold chars
    dsimp only
    cases fraction (n + 1) digits with
    | nil => exact (List.append_nil _).symm
    | cons c cs => rfl

/-- A decimal is written with digits and at most a point. -/
theorem isDigit_of_mem_chars {d : Decimal} {c : Char} (h : c ∈ d.chars) :
    c.isDigit = true ∨ c = '.' := by
  obtain ⟨whole, frac, hnum, hchars⟩ := d.exists_numeral
  rw [hchars, List.mem_append] at h
  cases h with
  | inl h => exact .inl (hnum.isDigit c (List.mem_append_left _ h))
  | inr h =>
    cases frac with
    | nil => cases h
    | cons b bs =>
      cases h with
      | head => exact .inr rfl
      | tail _ h => exact .inl (hnum.isDigit c (List.mem_append_right _ h))

/-- A decimal is written with a digit in front. -/
theorem exists_chars_eq_cons (d : Decimal) : ∃ c cs, d.chars = c :: cs ∧ c.isDigit = true := by
  obtain ⟨whole, frac, hnum, hchars⟩ := d.exists_numeral
  cases whole with
  | nil => exact absurd rfl hnum.nonempty
  | cons c cs => exact ⟨c, _, hchars, hnum.isDigit c List.mem_cons_self⟩

end Decimal

/-! ## 4. What is read -/

namespace Literal

theorem takeWhile_pointed {whole : List Char} (h : ∀ c ∈ whole, c.isDigit = true)
    (frac : List Char) : (whole ++ Decimal.pointed frac).takeWhile Char.isDigit = whole := by
  rw [List.takeWhile_append_of_pos h]
  cases frac with
  | nil => exact List.append_nil _
  | cons c cs => exact List.append_nil _

theorem splitFraction_pointed {whole frac : List Char} (h : ∀ c ∈ whole, c.isDigit = true)
    (hf : ∀ c ∈ frac, c.isDigit = true) :
    splitFraction ((whole ++ Decimal.pointed frac).dropWhile Char.isDigit) = (frac, []) := by
  rw [List.dropWhile_append_of_pos h]
  cases frac with
  | nil => rfl
  | cons c cs =>
    show ((c :: cs).takeWhile Char.isDigit, (c :: cs).dropWhile Char.isDigit) = _
    have htake : ((c :: cs) ++ []).takeWhile Char.isDigit = (c :: cs) ++ [] :=
      List.takeWhile_append_of_pos hf
    have hdrop : ((c :: cs) ++ []).dropWhile Char.isDigit = [] := List.dropWhile_append_of_pos hf
    rw [List.append_nil] at htake hdrop
    rw [htake, hdrop]

/-- **A numeral is read as a decimal of the value that it denotes.** -/
theorem decimal?_numeral {whole frac : List Char} {d : Decimal} (h : Decimal.Numeral whole frac d) :
    ∃ e, decimal? (whole ++ Decimal.pointed frac) = some e ∧ e.num * d.den = d.num * e.den := by
  have hw : ∀ c ∈ whole, c.isDigit = true := fun c hc => h.isDigit c (List.mem_append_left _ hc)
  have hf : ∀ c ∈ frac, c.isDigit = true := fun c hc => h.isDigit c (List.mem_append_right _ hc)
  refine ⟨⟨Nat.ofDigitChars 10 (whole ++ frac) 0, 0 - frac.length⟩, ?_, ?_⟩
  · unfold decimal?
    rw [takeWhile_pointed hw, splitFraction_pointed hw hf]
    exact if_neg fun hnil => h.nonempty hnil.1
  · have hexp : (0 - (frac.length : Int)).toNat = 0 := by omega
    have hplaces : (-(0 - (frac.length : Int))).toNat = frac.length := by omega
    show Nat.ofDigitChars 10 (whole ++ frac) 0 * 10 ^ (0 - (frac.length : Int)).toNat * d.den =
      d.num * 10 ^ (-(0 - (frac.length : Int))).toNat
    rw [hexp, hplaces, Nat.pow_zero, Nat.mul_one]
    exact h.value

/-- **What is written for a decimal is read as one that goes to the same double.** -/
theorem nearestBits_decimal?_chars (d : Decimal) :
    ∃ e, decimal? d.chars = some e ∧ e.nearestBits = d.nearestBits := by
  obtain ⟨whole, frac, hnum, hchars⟩ := d.exists_numeral
  obtain ⟨e, he, hval⟩ := decimal?_numeral hnum
  refine ⟨e, ?_, Decimal.nearestBits_congr hval⟩
  rw [hchars]
  exact he

end Literal

end MiniLisp
