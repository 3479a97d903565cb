import MiniLisp.Decimal.Shortest

/-!
# Rounding: which double a decimal goes to

A double is found from a fraction by whole numbers alone. This file fixes what the proofs about
numbers need of it:

* `Double.nearestBits_congr`: rounding looks at the value of a fraction, not at how it is written;
* `Double.nearestBits_exact`: a value that is a double goes to itself, and the exact decimal of
  finite bits goes back to them (`Double.nearestBits_exact_decimal`);
* `Decimal.nearestBits_eq`: the two short cuts for decimals of extreme size change nothing;
* **`Double.nearestBits_shortest`**: the decimal that is written for finite bits goes back to them.
-/

namespace MiniLisp

-- Powers of natural numbers are the power function of core, whatever else is in scope.
attribute [local instance (2000)] instPowNat

namespace Double

/-! ## 1. Whole numbers -/

theorem div_le_roundDiv (num den : Nat) : num / den ≤ roundDiv num den := by
  unfold roundDiv
  dsimp only
  split
  · exact Nat.le_refl _
  · split
    · exact Nat.le_succ _
    · exact Nat.le_add_right _ _

theorem roundDiv_mul_right (q : Nat) {den : Nat} (hd : 0 < den) : roundDiv (q * den) den = q := by
  unfold roundDiv
  rw [Nat.mul_mod_left, Nat.mul_div_cancel q hd]
  exact if_pos hd

/-- A fraction may be extended. -/
theorem roundDiv_mul_left {k : Nat} (hk : 0 < k) (num den : Nat) :
    roundDiv (k * num) (k * den) = roundDiv num den := by
  unfold roundDiv
  dsimp only
  rw [Nat.mul_div_mul_left num den hk, Nat.mul_mod_mul_left k num den, Nat.mul_left_comm 2 k]
  simp only [Nat.mul_lt_mul_left hk]

/-! ## 2. Fractions -/

theorem nearestBits_mul_left {k : Nat} (hk : 0 < k) (num den : Nat) :
    nearestBits (k * num) (k * den) = nearestBits num den := by
  unfold nearestBits
  simp only [Nat.mul_assoc, Nat.mul_div_mul_left _ _ hk, roundDiv_mul_left hk]

/-- **Equal fractions go to the same double.** -/
theorem nearestBits_congr {num den num' den' : Nat} (hd : 0 < den) (hd' : 0 < den')
    (h : num * den' = num' * den) : nearestBits num den = nearestBits num' den' := by
  rw [← nearestBits_mul_left hd' num den, ← nearestBits_mul_left hd num' den',
    Nat.mul_comm den' num, h, Nat.mul_comm num' den, Nat.mul_comm den' den]

/-- The leading bits of finite bits, moved up, have their highest bit where they are meant to. -/
theorem log2_units {bits : Nat} (h : 2 ^ mantissaBits ≤ bits) :
    (units bits).log2 = mantissaBits + scale bits := by
  have hm : mantissa bits = 2 ^ mantissaBits + bits % 2 ^ mantissaBits :=
    if_neg (Nat.not_lt.mpr h)
  have hlow : 2 ^ mantissaBits ≤ mantissa bits := by
    rw [hm]
    exact Nat.le_add_right _ _
  have hhigh : mantissa bits < 2 ^ (mantissaBits + 1) := by
    have := Nat.mod_lt bits (Nat.two_pow_pos mantissaBits)
    rw [hm, Nat.pow_succ]
    omega
  have hpos : 0 < 2 ^ scale bits := Nat.two_pow_pos _
  have hne : units bits ≠ 0 := by
    have := Nat.two_pow_pos mantissaBits
    exact Nat.ne_of_gt (Nat.mul_pos (by omega) hpos)
  rw [Nat.log2_eq_iff hne]
  constructor
  · rw [Nat.pow_add]
    exact Nat.mul_le_mul_right _ hlow
  · rw [Nat.add_right_comm, Nat.pow_add]
    exact Nat.mul_lt_mul_of_pos_right hhigh hpos

/-- **A fraction that is the value of finite bits goes to these bits.** -/
theorem nearestBits_exact {num den bits : Nat} (hd : 0 < den) (hb : bits < infinityBits)
    (h : num * 2 ^ places = units bits * den) : nearestBits num den = bits := by
  have hle := Nat.min_eq_left (Nat.le_of_lt hb)
  unfold nearestBits
  simp only [h, Nat.mul_div_cancel _ hd]
  by_cases hsmall : bits < 2 ^ mantissaBits
  · have hm : mantissa bits = bits := if_pos hsmall
    have hs : scale bits = 0 := by
      unfold scale
      rw [Nat.div_eq_of_lt hsmall]
    have hu : units bits = bits := by
      unfold units
      rw [hm, hs, Nat.pow_zero, Nat.mul_one]
    have hlog : bits.log2 - mantissaBits = 0 := by
      by_cases h0 : bits = 0
      · rw [h0]
        rfl
      · have := (Nat.log2_lt h0).mpr hsmall
        omega
    rw [hu, hlog, Nat.pow_zero, Nat.mul_one, roundDiv_mul_right bits hd, Nat.zero_mul, Nat.zero_add]
    exact hle
  · have hge : 2 ^ mantissaBits ≤ bits := Nat.not_lt.mp hsmall
    have hdrop : (units bits).log2 - mantissaBits = scale bits := by
      rw [log2_units hge]
      exact Nat.add_sub_cancel_left _ _
    have hround : roundDiv (units bits * den) (den * 2 ^ scale bits) = mantissa bits := by
      have hpos : 0 < den * 2 ^ scale bits := Nat.mul_pos hd (Nat.two_pow_pos _)
      rw [← roundDiv_mul_right (mantissa bits) hpos, units, Nat.mul_assoc, Nat.mul_comm den]
    have hback : scale bits * 2 ^ mantissaBits + mantissa bits = bits := by
      have hquot : 1 ≤ bits / 2 ^ mantissaBits :=
        (Nat.one_le_div_iff (Nat.two_pow_pos _)).mpr hge
      have hsplit := Nat.div_add_mod bits (2 ^ mantissaBits)
      have hm : mantissa bits = 2 ^ mantissaBits + bits % 2 ^ mantissaBits :=
        if_neg (Nat.not_lt.mpr hge)
      have hs : scale bits + 1 = bits / 2 ^ mantissaBits := Nat.sub_add_cancel hquot
      rw [hm, ← Nat.add_assoc, ← Nat.succ_mul, Nat.succ_eq_add_one, hs, Nat.mul_comm]
      exact hsplit
    rw [hdrop, hround, hback]
    exact hle

/-- Less than half of the least double goes to zero. -/
theorem nearestBits_of_tiny {num den : Nat} (h : 2 * (num * 2 ^ places) < den) :
    nearestBits num den = 0 := by
  have hlt : num * 2 ^ places < den := by omega
  unfold nearestBits
  simp only [Nat.div_eq_of_lt hlt, Nat.log2_zero, Nat.zero_sub, Nat.pow_zero, Nat.mul_one,
    Nat.zero_mul, Nat.zero_add]
  have hround : roundDiv (num * 2 ^ places) den = 0 := by
    unfold roundDiv
    rw [Nat.mod_eq_of_lt hlt, Nat.div_eq_of_lt hlt]
    exact if_pos h
  rw [hround]
  exact Nat.min_eq_left (Nat.zero_le _)

/-- A scaled fraction from a power of two on. -/
theorem le_scaled {num den e : Nat} (hd : 0 < den) (h : 2 ^ e * den ≤ num) :
    2 ^ (e + places) ≤ num * 2 ^ places / den := by
  rw [Nat.le_div_iff_mul_le hd, Nat.pow_add, Nat.mul_right_comm]
  exact Nat.mul_le_mul_right _ h

/-- What reaches the power of two behind the greatest double goes to infinity. -/
theorem nearestBits_of_huge {num den k : Nat} (hd : 0 < den) (hk : 1024 ≤ k)
    (h : 2 ^ k * den ≤ num) : nearestBits num den = infinityBits := by
  have hscaled := le_scaled hd h
  have hne : num * 2 ^ places / den ≠ 0 := by
    have := Nat.two_pow_pos (k + places)
    omega
  have hlog : k + places ≤ (num * 2 ^ places / den).log2 := (Nat.le_log2 hne).mpr hscaled
  have hself := Nat.log2_self_le hne
  unfold nearestBits
  refine Nat.min_eq_right ?_
  generalize num * 2 ^ places = scaled at *
  generalize hdrop : (scaled / den).log2 - mantissaBits = drop
  have hlow : 2 ^ mantissaBits ≤ roundDiv scaled (den * 2 ^ drop) := by
    refine Nat.le_trans ?_ (div_le_roundDiv _ _)
    rw [← Nat.div_div_eq_div_mul, Nat.le_div_iff_mul_le (Nat.two_pow_pos _), ← Nat.pow_add, ← hdrop]
    have : mantissaBits + ((scaled / den).log2 - mantissaBits) = (scaled / den).log2 := by
      unfold mantissaBits
      unfold places at hlog
      omega
    rw [this]
    exact hself
  have hsteps : 2046 ≤ drop := by
    unfold mantissaBits at hdrop
    unfold places at hlog
    omega
  have hmul := Nat.mul_le_mul_right (2 ^ mantissaBits) hsteps
  have hinf : infinityBits = 2046 * 2 ^ mantissaBits + 2 ^ mantissaBits := by decide
  show infinityBits ≤ drop * 2 ^ mantissaBits + roundDiv scaled (den * 2 ^ drop)
  omega

end Double

/-! ## 3. Decimals -/

namespace Decimal

/-- The decimal as a fraction: above. -/
def num (d : Decimal) : Nat := d.digits * 10 ^ d.exponent.toNat

/-- The decimal as a fraction: below. -/
def den (d : Decimal) : Nat := 10 ^ (-d.exponent).toNat

theorem den_pos (d : Decimal) : 0 < d.den := Nat.pow_pos (by decide)

theorem two_pow_le_ten_pow (n : Nat) : 2 ^ (3 * n) ≤ 10 ^ n := by
  rw [Nat.pow_mul]
  exact Nat.pow_le_pow_left (by decide) n

/-- **The size of a decimal is looked at only where rounding would come to the same.** -/
theorem nearestBits_eq (d : Decimal) : d.nearestBits = Double.nearestBits d.num d.den := by
  obtain ⟨digits, exponent⟩ := d
  cases exponent with
  | ofNat e =>
    show (if digits = 0 then 0 else if 1024 ≤ 3 * e then Double.infinityBits
      else Double.nearestBits (digits * 10 ^ e) 1) = _
    have hnum : num ⟨digits, .ofNat e⟩ = digits * 10 ^ e := rfl
    have hden : den ⟨digits, .ofNat e⟩ = 1 := by
      show 10 ^ (-(e : Int)).toNat = 1
      rw [Int.toNat_neg_natCast]
    rw [hnum, hden]
    by_cases h0 : digits = 0
    · rw [if_pos h0, h0, Nat.zero_mul]
      refine (Double.nearestBits_of_tiny ?_).symm
      rw [Nat.zero_mul]
      exact Nat.one_pos
    rw [if_neg h0]
    by_cases hbig : 1024 ≤ 3 * e
    · rw [if_pos hbig]
      refine (Double.nearestBits_of_huge Nat.one_pos hbig ?_).symm
      calc 2 ^ (3 * e) * 1 = 2 ^ (3 * e) := Nat.mul_one _
        _ ≤ 10 ^ e := two_pow_le_ten_pow e
        _ ≤ digits * 10 ^ e := Nat.le_mul_of_pos_left _ (Nat.pos_of_ne_zero h0)
    · rw [if_neg hbig]
  | negSucc n =>
    show (if digits.log2 + 1076 ≤ 3 * (n + 1) then 0
      else Double.nearestBits digits (10 ^ (n + 1))) = _
    have hnum : num ⟨digits, .negSucc n⟩ = digits := Nat.mul_one digits
    have hden : den ⟨digits, .negSucc n⟩ = 10 ^ (n + 1) := rfl
    rw [hnum, hden]
    by_cases hsmall : digits.log2 + 1076 ≤ 3 * (n + 1)
    · rw [if_pos hsmall]
      refine (Double.nearestBits_of_tiny ?_).symm
      have hlt : digits < 2 ^ (digits.log2 + 1) := Nat.lt_log2_self
      calc 2 * (digits * 2 ^ Double.places) = digits * 2 ^ (Double.places + 1) := by
            rw [Nat.pow_succ, Nat.mul_left_comm, Nat.mul_comm 2]
        _ < 2 ^ (digits.log2 + 1) * 2 ^ (Double.places + 1) :=
            Nat.mul_lt_mul_of_pos_right hlt (Nat.two_pow_pos _)
        _ = 2 ^ (digits.log2 + 1076) := by rw [← Nat.pow_add]; rfl
        _ ≤ 2 ^ (3 * (n + 1)) := Nat.pow_le_pow_right (by decide) hsmall
        _ ≤ 10 ^ (n + 1) := two_pow_le_ten_pow (n + 1)
    · rw [if_neg hsmall]

/-- Decimals of one value go to the same double. -/
theorem nearestBits_congr {d e : Decimal} (h : d.num * e.den = e.num * d.den) :
    d.nearestBits = e.nearestBits := by
  rw [nearestBits_eq, nearestBits_eq]
  exact Double.nearestBits_congr d.den_pos e.den_pos h

end Decimal

/-! ## 4. What is written -/

namespace Double

theorem nearestBits_exact_decimal {bits : Nat} (hb : bits < infinityBits) :
    (exact bits).nearestBits = bits := by
  rw [Decimal.nearestBits_eq]
  refine nearestBits_exact (Decimal.den_pos _) hb ?_
  have hnum : (exact bits).num =
      mantissa bits * 2 ^ (scale bits - places) * 5 ^ (places - scale bits) := by
    show _ * 10 ^ (-((places - scale bits : Nat) : Int)).toNat = _
    rw [Int.toNat_neg_natCast, Nat.pow_zero, Nat.mul_one]
    rfl
  have hden : (exact bits).den = 2 ^ (places - scale bits) * 5 ^ (places - scale bits) := by
    show 10 ^ (- -((places - scale bits : Nat) : Int)).toNat = _
    rw [Int.neg_neg, Int.toNat_natCast, ← Nat.mul_pow]
  have hpow : 2 ^ (scale bits - places) * 2 ^ places =
      2 ^ scale bits * 2 ^ (places - scale bits) := by
    have hsum : scale bits - places + places = scale bits + (places - scale bits) := by omega
    rw [← Nat.pow_add, ← Nat.pow_add, hsum]
  calc (exact bits).num * 2 ^ places
      = mantissa bits * (2 ^ (scale bits - places) * 2 ^ places) * 5 ^ (places - scale bits) := by
        rw [hnum, Nat.mul_right_comm, Nat.mul_assoc (mantissa bits)]
    _ = units bits * (exact bits).den := by
        rw [hpow, hden, units]
        simp only [Nat.mul_assoc]

/-- A neighbour is taken only where it goes back to the bits. -/
theorem nearestBits_onGrid {bits size count : Nat} {value d : Decimal}
    (h : onGrid bits value size count = some d) : d.nearestBits = bits := by
  unfold onGrid at h
  simp only at h
  split at h
  · rename_i hbelow habove
    simp only [Option.some.injEq] at h
    subst h
    split
    · exact of_decide_eq_true hbelow
    · exact of_decide_eq_true habove
  · rename_i hbelow _
    cases h
    exact of_decide_eq_true hbelow
  · rename_i _ habove
    cases h
    exact of_decide_eq_true habove
  · cases h

/-- **The decimal that is written for finite bits goes back to them.** -/
theorem nearestBits_shortest {bits : Nat} (hb : bits < infinityBits) :
    (shortest bits).nearestBits = bits := by
  unfold shortest
  simp only
  cases hfound : (List.range 17).findSome? fun n =>
      onGrid bits (exact bits) (digitCount (exact bits).digits) (n + 1) with
  | none => exact nearestBits_exact_decimal hb
  | some d =>
    obtain ⟨n, _, hn⟩ := List.exists_of_findSome?_eq_some hfound
    exact nearestBits_onGrid hn

end Double

end MiniLisp
