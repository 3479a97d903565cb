import MiniLisp.Proofs.Numerals
import MiniLisp.Number

/-!
# Numbers: a double is its bits, and its text reads back

A number is a double, and a double is 64 bits: a sign, an exponent and a fraction. This file carries
the facts about decimals over to numbers:

* `Double.pack_unpack`: to take a double apart and to pack it again changes nothing, so doubles and
  bits correspond (`Double.ofBits_toBits`, `Double.toBits_ofBits`);
* `Double.isFinite_iff`: a double is finite where its bits without the sign are below infinity;
* `Number.isFinite_of_finite?`: what is read as a finite number is finite;
* **`Number.finite?_text`**: the text of a finite number reads as that number, to the bit.
-/

namespace MiniLisp

-- Powers of natural numbers are the power function of core, whatever else is in scope.
attribute [local instance (2000)] instPowNat

namespace Double

open Float.Model Float.Model.UnpackedFloat

/-! ## 1. Fields -/

/-- The bit of the sign. -/
abbrev sign (b : BitVec 64) : BitVec 1 := @unpackSign Format.binary64 b

/-- The bits of the exponent. -/
abbrev exponent (b : BitVec 64) : BitVec 11 := @unpackExponent Format.binary64 b

/-- The bits of the mantissa without the leading one that is understood. -/
abbrev fraction (b : BitVec 64) : BitVec 52 := @unpackMantissa Format.binary64 b

theorem toBitVec_ofBitVec (s : BitVec 1) : (Sign.ofBitVec s).toBitVec = s := by
  cases BitVec.eq_zero_or_eq_one s with
  | inl h =>
    rw [h]
    rfl
  | inr h =>
    rw [h]
    rfl

/-- The three fields are all there is. -/
theorem packComponents_fields (b : BitVec 64) :
    packComponents .binary64 (Sign.ofBitVec (sign b)) (exponent b) (fraction b) = b := by
  unfold packComponents
  rw [toBitVec_ofBitVec]
  refine BitVec.eq_of_getLsbD_eq fun i hi => ?_
  have hi' : i < 64 := hi
  have hsign : sign b = b.extractLsb (52 + 11) (52 + 11) := rfl
  have hexp : exponent b = b.extractLsb (52 + 11 - 1) 52 := rfl
  have hfrac : fraction b = b.extractLsb (52 - 1) 0 := rfl
  simp only [hsign, hexp, hfrac, BitVec.getLsbD_append, BitVec.getLsbD_extractLsb]
  split
  · rw [Nat.zero_add, decide_eq_true (by omega), Bool.true_and]
  · split
    · rw [decide_eq_true (by omega), Bool.true_and, Nat.add_sub_cancel' (by omega)]
    · rw [decide_eq_true (by omega), Bool.true_and]
      congr 1
      omega

theorem toNat_exponent (b : BitVec 64) :
    (exponent b).toNat = b.toNat / 2 ^ mantissaBits % 2048 := by
  have hexp : exponent b = b.extractLsb (52 + 11 - 1) 52 := rfl
  rw [hexp, BitVec.extractLsb_toNat, Nat.shiftRight_eq_div_pow]
  rfl

/-- The greatest exponent belongs to infinity and to what lies behind it. -/
theorem exponent_eq_allOnes_iff (b : BitVec 64) :
    exponent b = -1#11 ↔ infinityBits ≤ b.toNat % signBit := by
  have hones : (-1#11).toNat = 2047 := rfl
  have hlt := b.isLt
  rw [← BitVec.toNat_inj, toNat_exponent, hones]
  unfold infinityBits signBit mantissaBits
  omega

theorem log2_fraction_lt {m : BitVec 52} (h : m ≠ 0#52) : m.toNat.log2 < 52 := by
  have hne : m.toNat ≠ 0 := fun h0 => h (BitVec.eq_of_toNat_eq h0)
  exact (Nat.log2_lt hne).mpr m.isLt

theorem log2_one_append (m : BitVec 52) : (1#1 ++ m).toNat.log2 = 52 := by
  have hm := m.isLt
  have happend : (1#1 ++ m).toNat = 2 ^ 52 + m.toNat := by
    rw [BitVec.toNat_append]
    show 1 <<< 52 ||| m.toNat = _
    rw [Nat.shiftLeft_eq, Nat.mul_comm, ← Nat.two_pow_add_eq_or_of_lt hm 1, Nat.mul_one]
  rw [happend, Nat.log2_eq_iff (by omega)]
  omega

/-! ## 2. Bits and doubles -/

/-- Packing writes the exponent where the mantissa has its leading one, and else zero. -/
theorem pack_finite (s : Sign) {m : Nat} (hm : 0 < m) {e : Int} (biased : Nat)
    (he : e + 1023 + 52 = biased) (hlt : biased + 1 < 2048) :
    UnpackedFloat.pack .binary64 (.finite s m e hm) =
      packComponents .binary64 s (if m.log2 = 52 then BitVec.ofNat 11 biased else 0#11)
        (BitVec.ofNat 52 m) := by
  have hb : (e + (1023 : Nat) + (52 : Nat)).toNat = biased := by omega
  show (if 2048 ≤ (e + (1023 : Nat) + (52 : Nat)).toNat + 1 then packedInfinity .binary64 s
    else if m.log2 + 1 = 53 then _ else _) = _
  rw [hb, if_neg (Nat.not_le.mpr hlt)]
  by_cases hlog : m.log2 = 52
  · rw [if_pos hlog, if_pos (congrArg (· + 1) hlog), ← hb]
    rfl
  · rw [if_neg hlog, if_neg fun h => hlog (Nat.succ.inj h)]

/-- **To take a double apart and to pack it again changes nothing.** -/
theorem pack_unpack {b : BitVec 64} (h : Format.binary64.Valid b) :
    UnpackedFloat.pack .binary64 (UnpackedFloat.unpack .binary64 b) = b := by
  have hb := packComponents_fields b
  unfold UnpackedFloat.unpack
  dsimp only
  by_cases hones : exponent b = -1#11
  · rw [if_pos hones]
    by_cases hfrac : fraction b = 0#52
    · rw [if_pos hfrac]
      rw [hones, hfrac] at hb
      exact hb
    · rw [if_neg hfrac]
      exact (h.eq_packedNaN hones hfrac).symm
  rw [if_neg hones]
  by_cases hzero : exponent b = 0#11
  · rw [if_pos hzero]
    rw [hzero] at hb
    by_cases hfrac : fraction b = 0#52
    · rw [dif_pos hfrac]
      rw [hfrac] at hb
      exact hb
    · rw [dif_neg hfrac]
      have hexp : ((exponent b).toNat : Int) - ((1023 : Nat) + (52 : Nat)) + 1 + 1023 + 52 =
          (1 : Nat) := by
        rw [hzero]
        rfl
      refine (pack_finite _ _ 1 hexp (by decide)).trans ?_
      rw [if_neg (Nat.ne_of_lt (log2_fraction_lt hfrac)), BitVec.ofNat_toNat, BitVec.setWidth_eq]
      exact hb
  · rw [if_neg hzero]
    have hexp : ((exponent b).toNat : Int) - ((1023 : Nat) + (52 : Nat)) + 1023 + 52 =
        (exponent b).toNat := by omega
    have hlt : (exponent b).toNat + 1 < 2048 := by
      have hle := (exponent b).isLt
      have hne : (exponent b).toNat ≠ 2047 := fun h => hones (BitVec.eq_of_toNat_eq h)
      omega
    refine (pack_finite _ _ _ hexp hlt).trans ?_
    rw [if_pos (log2_one_append _), BitVec.ofNat_toNat, BitVec.ofNat_toNat, BitVec.setWidth_eq,
      BitVec.setWidth_append_eq_right]
    exact hb

/-- The bits of a double lead back to it. -/
theorem ofBits_toBits (x : Float) : Float.ofBits x.toBits = x := by
  obtain ⟨⟨u, hu⟩⟩ := x
  show Float.ofModel (.pack _) = _
  unfold Float.Model.pack
  congr 2
  show UInt64.ofBitVec (UnpackedFloat.pack .binary64 (UnpackedFloat.unpack .binary64 u.toBitVec)) = u
  rw [pack_unpack hu]

/-- Finite bits are those of a double. -/
theorem toBits_ofBits {u : UInt64} (h : u.toNat % signBit < infinityBits) :
    (Float.ofBits u).toBits = u := by
  have hvalid : Format.binary64.Valid u.toBitVec := by
    refine ⟨fun hones => ?_⟩
    exact absurd ((exponent_eq_allOnes_iff _).mp hones) (Nat.not_le.mpr h)
  show UInt64.ofBitVec (UnpackedFloat.pack .binary64 (UnpackedFloat.unpack .binary64 u.toBitVec)) = u
  rw [pack_unpack hvalid]

/-- **A double is finite where its bits, without the sign, are below those of infinity.** -/
theorem isFinite_iff (x : Float) : x.isFinite = true ↔ x.toBits.toNat % signBit < infinityBits := by
  have hexp := exponent_eq_allOnes_iff x.toBits.toBitVec
  show (UnpackedFloat.unpack .binary64 x.toBits.toBitVec).isFinite = true ↔
    x.toBits.toBitVec.toNat % signBit < infinityBits
  unfold UnpackedFloat.unpack
  dsimp only
  rw [← Nat.not_le, ← hexp]
  by_cases hones : exponent x.toBits.toBitVec = -1#11
  · rw [if_pos hones]
    refine ⟨fun hf => ?_, fun hn => absurd hones hn⟩
    by_cases hfrac : fraction x.toBits.toBitVec = 0#52
    · rw [if_pos hfrac] at hf
      cases hf
    · rw [if_neg hfrac] at hf
      cases hf
  · rw [if_neg hones]
    refine ⟨fun _ => hones, fun _ => ?_⟩
    by_cases hzero : exponent x.toBits.toBitVec = 0#11
    · rw [if_pos hzero]
      by_cases hfrac : fraction x.toBits.toBitVec = 0#52
      · rw [dif_pos hfrac]
        rfl
      · rw [dif_neg hfrac]
        rfl
    · rw [if_neg hzero]
      rfl

theorem infinityBits_lt_signBit : infinityBits < signBit := by decide

/-- The sign is above all finite bits. -/
theorem signed_mod_signBit (negative : Bool) {bits : Nat} (h : bits < infinityBits) :
    (if negative then bits + signBit else bits) % signBit = bits := by
  have hlt := Nat.lt_trans h infinityBits_lt_signBit
  split
  · rw [Nat.add_mod_right, Nat.mod_eq_of_lt hlt]
  · exact Nat.mod_eq_of_lt hlt

/-- Bits with a sign are the bits of the double that they are put into. -/
theorem toNat_toBits_ofBits (negative : Bool) {bits : Nat} (h : bits < infinityBits) :
    (ofBits negative bits).toBits.toNat = if negative then bits + signBit else bits := by
  have hinf := infinityBits_lt_signBit
  have hsize : signBit + signBit = 2 ^ 64 := by decide
  have hword : (UInt64.ofNat (if negative then bits + signBit else bits)).toNat =
      if negative then bits + signBit else bits := by
    rw [UInt64.toNat_ofNat']
    refine Nat.mod_eq_of_lt ?_
    split <;> omega
  unfold ofBits
  rw [toBits_ofBits, hword]
  rw [hword, signed_mod_signBit negative h]
  exact h

/-- Finite bits with a sign are put into a finite double. -/
theorem isFinite_ofBits (negative : Bool) {bits : Nat} (h : bits < infinityBits) :
    (ofBits negative bits).isFinite = true := by
  rw [isFinite_iff, toNat_toBits_ofBits negative h, signed_mod_signBit negative h]
  exact h

end Double

/-! ## 3. Reading -/

/-- A digit is no sign. -/
theorem Literal.splitSign_of_isDigit {c : Char} (h : c.isDigit = true) (cs : List Char) :
    splitSign (c :: cs) = (false, c :: cs) := by
  have hminus : c ≠ '-' := by
    intro hc
    rw [hc] at h
    cases h
  have hplus : c ≠ '+' := by
    intro hc
    rw [hc] at h
    cases h
  unfold splitSign
  split
  · rename_i heq
    exact absurd (List.cons.inj heq).1 hminus
  · rename_i heq
    exact absurd (List.cons.inj heq).1 hplus
  · rfl

namespace Number

/-- **What is read as a finite number is finite.** -/
theorem isFinite_of_finite? {text : String} {x : Float} (h : finite? text = some x) :
    x.isFinite = true := by
  unfold finite? at h
  split at h
  · rename_i l _
    dsimp only at h
    by_cases hlt : magnitudeBits l.magnitude < Double.infinityBits
    · rw [if_pos hlt] at h
      obtain rfl := Option.some.inj h
      exact Double.isFinite_ofBits l.negative hlt
    · rw [if_neg hlt] at h
      cases h
  · cases h

/-! ## 4. Writing -/

/-- The characters of a sign. -/
def signChars (negative : Bool) : List Char := if negative then ['-'] else []

/-- The text of a finite number is a sign and a decimal. -/
theorem toList_text {x : Float} (h : x.isFinite = true) :
    (text x).toList = signChars (Double.signBit ≤ x.toBits.toNat) ++
      (Double.shortest (x.toBits.toNat % Double.signBit)).chars := by
  have hlt := (Double.isFinite_iff x).mp h
  have hchars : magnitudeChars (x.toBits.toNat % Double.signBit) =
      (Double.shortest (x.toBits.toNat % Double.signBit)).chars := if_neg (Nat.ne_of_lt hlt)
  unfold text
  simp only
  rw [if_neg (Nat.not_lt.mpr (Nat.le_of_lt hlt)), hchars]
  by_cases hneg : Double.signBit ≤ x.toBits.toNat
  · rw [if_pos hneg, String.toList_ofList, decide_eq_true hneg]
    rfl
  · rw [if_neg hneg, String.toList_ofList, decide_eq_false hneg]
    rfl

/-- The decimal of finite bits, with a sign in front, is a literal of them. -/
theorem ofChars?_signed (negative : Bool) {bits : Nat} (h : bits < Double.infinityBits) :
    ∃ d, Literal.ofChars? (signChars negative ++ (Double.shortest bits).chars) =
      some ⟨negative, .finite d⟩ ∧ d.nearestBits = bits := by
  obtain ⟨d, hd, hbits⟩ := Literal.nearestBits_decimal?_chars (Double.shortest bits)
  refine ⟨d, ?_, hbits.trans (Double.nearestBits_shortest h)⟩
  have hsplit : Literal.splitSign (signChars negative ++ (Double.shortest bits).chars) =
      (negative, (Double.shortest bits).chars) := by
    cases negative with
    | true => rfl
    | false =>
      obtain ⟨c, cs, hchars, hdigit⟩ := (Double.shortest bits).exists_chars_eq_cons
      show Literal.splitSign (Double.shortest bits).chars = _
      rw [hchars]
      exact Literal.splitSign_of_isDigit hdigit cs
  unfold Literal.ofChars?
  rw [hsplit]
  unfold Literal.magnitude?
  simp only [hd]
  rfl

/-- **The text of a finite number reads as that number, to the bit.** -/
theorem finite?_text {x : Float} (h : x.isFinite = true) : finite? (text x) = some x := by
  have hlt := (Double.isFinite_iff x).mp h
  obtain ⟨d, hd, hbits⟩ := ofChars?_signed (Double.signBit ≤ x.toBits.toNat) hlt
  have hword : (if decide (Double.signBit ≤ x.toBits.toNat) = true
      then x.toBits.toNat % Double.signBit + Double.signBit
      else x.toBits.toNat % Double.signBit) = x.toBits.toNat := by
    have hsize : Double.signBit + Double.signBit = 2 ^ 64 := by decide
    have htop : x.toBits.toNat < 2 ^ 64 := x.toBits.toBitVec.isLt
    by_cases hneg : Double.signBit ≤ x.toBits.toNat
    · rw [if_pos (decide_eq_true hneg), Nat.mod_eq_sub_mod hneg, Nat.mod_eq_of_lt (by omega)]
      exact Nat.sub_add_cancel hneg
    · rw [decide_eq_false hneg]
      exact Nat.mod_eq_of_lt (Nat.not_le.mp hneg)
  unfold finite?
  rw [toList_text h, hd]
  show (if d.nearestBits < Double.infinityBits then some (Double.ofBits _ d.nearestBits) else none) = _
  rw [hbits, if_pos hlt, Double.ofBits, hword, UInt64.ofNat_toNat, Double.ofBits_toBits]

/-- Digits, the sign and the point are all that a finite number is written with. -/
theorem isDigit_of_mem_text {x : Float} (h : x.isFinite = true) {c : Char}
    (hc : c ∈ (text x).toList) : c.isDigit = true ∨ c = '.' ∨ c = '-' := by
  rw [toList_text h, List.mem_append] at hc
  cases hc with
  | inl hc =>
    unfold signChars at hc
    split at hc
    · exact .inr (.inr (List.mem_singleton.mp hc))
    · cases hc
  | inr hc =>
    cases Decimal.isDigit_of_mem_chars hc with
    | inl hdigit => exact .inl hdigit
    | inr hpoint => exact .inr (.inl hpoint)

theorem toList_text_ne_nil {x : Float} (h : x.isFinite = true) : (text x).toList ≠ [] := by
  obtain ⟨c, cs, hchars, _⟩ :=
    (Double.shortest (x.toBits.toNat % Double.signBit)).exists_chars_eq_cons
  rw [toList_text h, hchars]
  exact List.append_ne_nil_of_right_ne_nil _ (List.cons_ne_nil _ _)

end Number

end MiniLisp
