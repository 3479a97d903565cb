import Mathlib.Algebra.Order.Field.Basic
import Mathlib.Algebra.Order.Ring.Rat
import Mathlib.Data.Rat.Cast.Defs
import MiniLisp.Proofs.Rounding

/-!
# Limits: which decimals go to a finite double

Rounding takes what is too great to infinity. This file finds where that begins:

* `Double.roundDiv_le_iff_of_odd`: a fraction goes to an odd number, or below it, where it is less than a half
  above that number, since the half itself goes to the even number behind;
* `Double.nearestBits_lt_infinityBits_iff`: the greatest finite double has an odd mantissa, so what lies less
  than half a step above it goes to it, and **the half step itself, `2 ^ 1024 - 2 ^ 970`, goes to infinity**;
* **`Decimal.nearestBits_lt_infinityBits_iff`**: the same of the value of a decimal, however many digits it has
  and whatever the size of its exponent.
-/

namespace MiniLisp

-- Powers of natural numbers are the power function of core, whatever else is in scope.
attribute [local instance (2000)] instPowNat

namespace Double

/-! ## 1. Whole numbers -/

theorem roundDiv_le_succ (num den : Nat) : roundDiv num den ≤ num / den + 1 := by
  unfold roundDiv
  dsimp only
  split
  · exact Nat.le_succ _
  · split
    · exact Nat.le_refl _
    · omega

/-- **A half above an odd number goes up.** -/
theorem roundDiv_le_iff_of_odd {m : Nat} (hm : m % 2 = 1) (num : Nat) {den : Nat} (hd : 0 < den) :
    roundDiv num den ≤ m ↔ 2 * num < (2 * m + 1) * den := by
  have hsplit := Nat.div_add_mod num den
  have hrest := Nat.mod_lt num hd
  have hodd : (2 * m + 1) * den = 2 * (den * m) + den := by
    rw [Nat.succ_mul, Nat.mul_assoc, Nat.mul_comm m]
  rw [hodd]
  rcases Nat.lt_trichotomy (num / den) m with hlt | heq | hgt
  · -- a whole number below `m` goes to `m` at most
    have hstep : den * (num / den) + den ≤ den * m := by
      rw [← Nat.mul_succ]
      exact Nat.mul_le_mul_left den hlt
    have hround := roundDiv_le_succ num den
    exact iff_of_true (by omega) (by omega)
  · unfold roundDiv
    rw [heq] at hsplit ⊢
    dsimp only
    split
    · exact iff_of_true (Nat.le_refl m) (by omega)
    · split
      · exact iff_of_false (by omega) (by omega)
      · rw [hm]
        exact iff_of_false (by omega) (by omega)
  · have hstep : den * m + den ≤ den * (num / den) := by
      rw [← Nat.mul_succ]
      exact Nat.mul_le_mul_left den hgt
    have hround := div_le_roundDiv num den
    exact iff_of_false (by omega) (by omega)

/-! ## 2. Fractions -/

/-- The 53 leading bits that are left of a fraction, rounded. -/
theorem roundDiv_le_mantissas (scaled den : Nat) :
    roundDiv scaled (den * 2 ^ ((scaled / den).log2 - mantissaBits)) ≤ 2 ^ (mantissaBits + 1) := by
  refine Nat.le_trans (roundDiv_le_succ _ _) ?_
  rw [← Nat.div_div_eq_div_mul]
  have hlt : scaled / den < 2 ^ ((scaled / den).log2 + 1) := Nat.lt_log2_self
  have hpow : (scaled / den).log2 + 1 ≤ mantissaBits + 1 + ((scaled / den).log2 - mantissaBits) := by omega
  refine Nat.div_lt_of_lt_mul (Nat.lt_of_lt_of_le hlt ?_)
  rw [Nat.mul_comm, ← Nat.pow_add]
  exact Nat.pow_le_pow_right (by decide) hpow

/-- A scaled fraction below a power of two. -/
theorem scaled_lt {num den e : Nat} (h : num < 2 ^ e * den) : num * 2 ^ places / den < 2 ^ (e + places) := by
  refine Nat.div_lt_of_lt_mul ?_
  rw [Nat.pow_add, ← Nat.mul_assoc, Nat.mul_comm den]
  exact Nat.mul_lt_mul_of_pos_right h (Nat.two_pow_pos _)

/-- **Between two powers of two a scaled fraction has the bits of the lower one.** -/
theorem log2_scaled {num den e : Nat} (hd : 0 < den) (hlow : 2 ^ e * den ≤ num)
    (hhigh : num < 2 ^ (e + 1) * den) : (num * 2 ^ places / den).log2 = e + places := by
  have hle := le_scaled hd hlow
  have hlt : num * 2 ^ places / den < 2 ^ (e + places + 1) := by
    rw [Nat.add_right_comm]
    exact scaled_lt hhigh
  have hne : num * 2 ^ places / den ≠ 0 := Nat.ne_of_gt (Nat.lt_of_lt_of_le (Nat.two_pow_pos _) hle)
  exact (Nat.log2_eq_iff hne).mpr ⟨hle, hlt⟩

section Limit

-- The greatest finite double has 53 leading bits, and half a step of the last one is `2 ^ k`. To the proofs `k`
-- is a variable, so that no great power of two is computed.
variable {k : Nat}

/-- A fraction below the last power of two that a finite double reaches is not too great. -/
theorem nearestBits_lt_of_lt (hk : k = 970) {num den : Nat} (h : num < 2 ^ (53 + k) * den) :
    nearestBits num den < infinityBits := by
  have hscaled := scaled_lt h
  have hdrop : (num * 2 ^ places / den).log2 - mantissaBits ≤ 2044 := by
    by_cases h0 : num * 2 ^ places / den = 0
    · rw [h0]
      decide
    · have hlog := (Nat.log2_lt h0).mpr hscaled
      unfold places mantissaBits at *
      omega
  have hround := roundDiv_le_mantissas (num * 2 ^ places) den
  have hsteps := Nat.mul_le_mul_right (2 ^ mantissaBits) hdrop
  have hinf : 2044 * 2 ^ mantissaBits + 2 ^ (mantissaBits + 1) < infinityBits := by decide
  unfold nearestBits
  exact Nat.lt_of_le_of_lt (Nat.min_le_left _ _)
    (Nat.lt_of_le_of_lt (Nat.add_le_add hsteps hround) hinf)

/-- **Between the last two powers of two the mantissa decides**: it has to be below `2 ^ 53` when it is
    rounded, and `2 ^ 53 - 1` is odd. -/
theorem nearestBits_lt_iff_of_last (hk : k = 970) {num den : Nat} (hd : 0 < den)
    (hlow : 2 ^ (53 + k) * den ≤ num) (hhigh : num < 2 ^ (53 + 1 + k) * den) :
    nearestBits num den < infinityBits ↔ num < (2 ^ 54 - 1) * 2 ^ k * den := by
  have hlog : (num * 2 ^ places / den).log2 = 53 + k + places := by
    rw [Nat.add_right_comm 53 1 k] at hhigh
    exact log2_scaled hd hlow hhigh
  have hdrop : 53 + k + places - mantissaBits = k + (1 + places) := by
    unfold mantissaBits
    omega
  have hinf : infinityBits = (k + (1 + places)) * 2 ^ mantissaBits + (2 ^ 53 - 1) + 1 := by
    rw [hk]
    decide
  have hden : 0 < den * 2 ^ (k + (1 + places)) := Nat.mul_pos hd (Nat.two_pow_pos _)
  have hbits : nearestBits num den < infinityBits ↔
      roundDiv (num * 2 ^ places) (den * 2 ^ (k + (1 + places))) ≤ 2 ^ 53 - 1 := by
    unfold nearestBits
    dsimp only
    rw [hlog, hdrop, hinf, min_lt_iff, or_iff_left (Nat.lt_irrefl _), Nat.lt_succ_iff,
      Nat.add_le_add_iff_left]
  -- both sides of the comparison with `2 ^ 53 - 1` have a power of two as a factor
  have hleft : 2 * (num * 2 ^ places) = num * 2 ^ (1 + places) := by
    rw [Nat.mul_left_comm, Nat.pow_add, Nat.pow_one]
  have hodd : 2 * (2 ^ 53 - 1) + 1 = 2 ^ 54 - 1 := by decide
  have hright : (2 * (2 ^ 53 - 1) + 1) * (den * 2 ^ (k + (1 + places))) =
      (2 ^ 54 - 1) * 2 ^ k * den * 2 ^ (1 + places) := by
    rw [hodd, Nat.pow_add 2 k, ← Nat.mul_assoc, ← Nat.mul_assoc, Nat.mul_right_comm _ den]
  rw [hbits, roundDiv_le_iff_of_odd (by decide) _ hden, hleft, hright,
    Nat.mul_lt_mul_right (Nat.two_pow_pos _)]

/-- **A fraction goes to a finite double exactly if it is less than `2 ^ 1024 - 2 ^ 970`.** -/
theorem nearestBits_lt_infinityBits_iff (hk : k = 970) {num den : Nat} (hd : 0 < den) :
    nearestBits num den < infinityBits ↔ num < (2 ^ (54 + k) - 2 ^ k) * den := by
  have hlimit : 2 ^ (54 + k) - 2 ^ k = (2 ^ 54 - 1) * 2 ^ k := by
    rw [Nat.sub_mul, ← Nat.pow_add, Nat.one_mul]
  have hbelow : 2 ^ (53 + k) * den ≤ (2 ^ 54 - 1) * 2 ^ k * den := by
    rw [Nat.pow_add]
    exact Nat.mul_le_mul_right _ (Nat.mul_le_mul_right _ (by decide))
  have habove : (2 ^ 54 - 1) * 2 ^ k * den ≤ 2 ^ (54 + k) * den := by
    rw [← hlimit]
    exact Nat.mul_le_mul_right _ (Nat.sub_le _ _)
  rw [hlimit]
  by_cases hlow : num < 2 ^ (53 + k) * den
  · exact iff_of_true (nearestBits_lt_of_lt hk hlow) (Nat.lt_of_lt_of_le hlow hbelow)
  by_cases hhigh : num < 2 ^ (54 + k) * den
  · exact nearestBits_lt_iff_of_last hk hd (Nat.not_lt.mp hlow) hhigh
  · have hlast : 1024 ≤ 54 + k := by omega
    rw [nearestBits_of_huge hd hlast (Nat.not_lt.mp hhigh)]
    exact iff_of_false (Nat.lt_irrefl _) fun hlt => hhigh (Nat.lt_of_lt_of_le hlt habove)

end Limit

end Double

/-! ## 3. Decimals -/

namespace Decimal

/-- The value of a decimal is that of its fraction. -/
theorem value_eq (d : Decimal) : d.value = (d.num : Rat) / (d.den : Rat) := by
  obtain ⟨digits, exponent⟩ := d
  unfold value num den
  cases exponent with
  | ofNat e =>
    simp only [Int.ofNat_eq_natCast, Int.toNat_natCast, Int.toNat_neg_natCast, zpow_natCast, Nat.cast_mul,
      Nat.cast_pow, Nat.cast_ofNat, pow_zero, Nat.cast_one, div_one]
  | negSucc n =>
    have hup : (Int.negSucc n).toNat = 0 := rfl
    have hdown : (-Int.negSucc n).toNat = n + 1 := rfl
    simp only [hup, hdown, zpow_negSucc, Nat.cast_pow, Nat.cast_ofNat, pow_zero, mul_one, div_eq_mul_inv]

theorem value_lt_iff (d : Decimal) {m n : Nat} (h : m ≤ n) :
    d.value < 2 ^ n - 2 ^ m ↔ d.num < (2 ^ n - 2 ^ m) * d.den := by
  have hden : (0 : Rat) < (d.den : Rat) := Nat.cast_pos.mpr d.den_pos
  have hlimit : ((2 ^ n - 2 ^ m : Nat) : Rat) = 2 ^ n - 2 ^ m := by
    rw [Nat.cast_sub (Nat.pow_le_pow_right (by decide) h), Nat.cast_pow, Nat.cast_pow, Nat.cast_ofNat]
  rw [value_eq, div_lt_iff₀ hden, ← hlimit, ← Nat.cast_mul, Nat.cast_lt]

/-- **A decimal goes to a finite double exactly if its value is less than `2 ^ 1024 - 2 ^ 970`.** -/
theorem nearestBits_lt_infinityBits_iff (d : Decimal) :
    d.nearestBits < Double.infinityBits ↔ d.value < 2 ^ 1024 - 2 ^ 970 := by
  obtain ⟨k, hk⟩ : ∃ k, k = 970 := ⟨970, rfl⟩
  have hlast : 1024 = 54 + k := by omega
  rw [hlast, ← hk, nearestBits_eq, Double.nearestBits_lt_infinityBits_iff hk d.den_pos,
    d.value_lt_iff (Nat.le_add_left k 54)]

end Decimal

end MiniLisp
