/-!
# Decimals: a whole number of tenths, hundredths, …

A decimal is `digits · 10 ^ exponent`, exactly. This file fixes:

* what it denotes (`value`, a rational);
* how it is written (`chars`): in plain positional notation whatever its size, never with an
  exponent, with no point where nothing follows it and no zero at the end of the fraction.
-/

namespace MiniLisp

-- Powers of natural numbers are the power function of core, whatever else is in scope.
attribute [local instance (2000)] instPowNat

/-- How many decimal digits a natural number has; zero has one. -/
def digitCount (n : Nat) : Nat := (Nat.toDigits 10 n).length

/-- The number `digits · 10 ^ exponent`, which is not negative. -/
structure Decimal where
  digits : Nat
  exponent : Int
  deriving DecidableEq, Repr, Inhabited

namespace Decimal

/-- The number that is meant. -/
def value (d : Decimal) : Rat := (d.digits : Rat) * (10 : Rat) ^ d.exponent

/-- The last `places` digits of `n`, with zeros in front where `n` is shorter. -/
def lastDigits (places n : Nat) : List Char :=
  let ds := Nat.toDigits 10 (n % 10 ^ places)
  List.replicate (places - ds.length) '0' ++ ds

/-- The digits behind the point, without the zeros at their end. -/
def fraction (places n : Nat) : List Char :=
  if places = 0 then [] else ((lastDigits places n).reverse.dropWhile (· = '0')).reverse

/-- Plain positional notation. -/
def chars (d : Decimal) : List Char :=
  match d.exponent with
  | .ofNat zeros => Nat.toDigits 10 (d.digits * 10 ^ zeros)
  | .negSucc n =>
    let places := n + 1
    let whole := Nat.toDigits 10 (d.digits / 10 ^ places)
    match fraction places d.digits with
    | [] => whole
    | frac => whole ++ '.' :: frac

example : (⟨25, -1⟩ : Decimal).chars = "2.5".toList := by decide
example : (⟨25, 3⟩ : Decimal).chars = "25000".toList := by decide
example : (⟨2500, -2⟩ : Decimal).chars = "25".toList := by decide
example : (⟨1, -6⟩ : Decimal).chars = "0.000001".toList := by decide
example : (⟨0, -3⟩ : Decimal).chars = "0".toList := by decide

end Decimal

end MiniLisp
