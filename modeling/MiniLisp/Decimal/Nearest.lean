import MiniLisp.Decimal.Basic

/-!
# The double nearest to a decimal

A double (the 64-bit binary format of IEEE 754) is known by its bits. Without the sign, the bits
read as a natural number grow with the value, which makes rounding a matter of whole numbers:

* every finite double is a whole number of units of 2 ^ -`places` (`units`);
* a rational goes to the nearest such number with at most 53 leading bits, **a tie to the even
  one**, and from 2 ^ 1024 - 2 ^ 970 on to infinity (`nearestBits`);
* a decimal with a very large or very small exponent is settled by its size alone, before any power
  of ten is computed: `10 > 2 ^ 3`, so `3 · exponent` bounds its binary exponent.
-/

namespace MiniLisp

-- Powers of natural numbers are the power function of core, whatever else is in scope.
attribute [local instance (2000)] instPowNat

namespace Double

/-- How many binary places the least double stands behind the point; its decimals end there too. -/
def places : Nat := 1074

/-- How many bits of a double hold the mantissa; a leading one before them is understood. -/
def mantissaBits : Nat := 52

/-- The bits of infinity; all smaller ones are finite. -/
def infinityBits : Nat := 0x7FF0000000000000

/-- The bit of the sign. -/
def signBit : Nat := 0x8000000000000000

/-- The leading bits of a finite double without a sign: 53 of them, or fewer near zero. -/
def mantissa (bits : Nat) : Nat :=
  if bits < 2 ^ mantissaBits then bits else 2 ^ mantissaBits + bits % 2 ^ mantissaBits

/-- How many binary places the mantissa is moved up from the units. -/
def scale (bits : Nat) : Nat := bits / 2 ^ mantissaBits - 1

/-- The value of finite bits without a sign, as a number of units of 2 ^ -`places`. -/
def units (bits : Nat) : Nat := mantissa bits * 2 ^ scale bits

/-- The whole number nearest to `num / den`, of two equally near ones the even one. -/
def roundDiv (num den : Nat) : Nat :=
  let low := num / den
  let rest := num % den
  if 2 * rest < den then low
  else if den < 2 * rest then low + 1
  else low + low % 2

/-- The bits of the double nearest to `num / den`. With `drop` binary places dropped, 53 leading
    bits remain; each dropped place is one step of the exponent, and a carry out of the mantissa is
    the next step of it. -/
def nearestBits (num den : Nat) : Nat :=
  let scaled := num * 2 ^ places
  let drop := (scaled / den).log2 - mantissaBits
  min (drop * 2 ^ mantissaBits + roundDiv scaled (den * 2 ^ drop)) infinityBits

/-- The double with these bits and this sign. -/
def ofBits (negative : Bool) (bits : Nat) : Float :=
  Float.ofBits (UInt64.ofNat (if negative then bits + signBit else bits))

example : nearestBits 1 1 = 0x3FF0000000000000 := by decide +kernel
example : nearestBits 1 10 = 0x3FB999999999999A := by decide +kernel
example : nearestBits 1 (2 ^ 1074) = 1 := by decide +kernel
example : nearestBits 1 (2 ^ 1075) = 0 := by decide +kernel
example : nearestBits 3 (2 ^ 1075) = 2 := by decide +kernel
example : nearestBits (2 ^ 1024 - 2 ^ 970 - 1) 1 = infinityBits - 1 := by decide +kernel
example : nearestBits (2 ^ 1024 - 2 ^ 970) 1 = infinityBits := by decide +kernel

end Double

/-- The bits of the double nearest to the decimal. -/
def Decimal.nearestBits (d : Decimal) : Nat :=
  match d.exponent with
  | .ofNat e =>
    if d.digits = 0 then 0
    else if 1024 ≤ 3 * e then Double.infinityBits
    else Double.nearestBits (d.digits * 10 ^ e) 1
  | .negSucc n =>
    if d.digits.log2 + 1076 ≤ 3 * (n + 1) then 0
    else Double.nearestBits d.digits (10 ^ (n + 1))

end MiniLisp
