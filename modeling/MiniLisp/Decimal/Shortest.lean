import MiniLisp.Decimal.Nearest

/-!
# The shortest decimal that reads back

Of the decimals that read as a given double, the one with the fewest digits is written, and of
several such the one closest to the double. This file fixes the search:

* for 1, 2, … 17 digits, the two neighbours of the exact value with that many digits are tried
  (`onGrid`); a neighbour counts if `Decimal.nearestBits` leads back to the same bits;
* **where both count, the nearer wins, and of two equally near the greater**;
* where none counted, the exact value itself would be written (`exact`), so what is written always
  leads back.
-/

namespace MiniLisp

-- Powers of natural numbers are the power function of core, whatever else is in scope.
attribute [local instance (2000)] instPowNat

namespace Double

/-- The value of finite bits, exactly: a half is five tenths, so each binary place behind the point
    is a decimal one. -/
def exact (bits : Nat) : Decimal :=
  let behind := places - scale bits
  ⟨mantissa bits * 2 ^ (scale bits - places) * 5 ^ behind, -(behind : Int)⟩

/-- The decimal with `count` digits that leads back to the bits, if one of the two neighbours of the
    value does; the value has `size` digits. -/
def onGrid (bits : Nat) (value : Decimal) (size count : Nat) : Option Decimal :=
  let cut := size - count
  let step := 10 ^ cut
  let low := value.digits / step
  let below : Decimal := ⟨low, value.exponent + cut⟩
  let above : Decimal := ⟨low + 1, value.exponent + cut⟩
  match decide (below.nearestBits = bits), decide (above.nearestBits = bits) with
  | true, true => some (if 2 * (value.digits % step) < step then below else above)
  | true, false => some below
  | false, true => some above
  | false, false => none

/-- The shortest decimal that leads back to the bits. -/
def shortest (bits : Nat) : Decimal :=
  let value := exact bits
  let size := digitCount value.digits
  ((List.range 17).findSome? fun n => onGrid bits value size (n + 1)).getD value

example : shortest 0x3FB999999999999A = ⟨1, -1⟩ := by decide +kernel
example : shortest 1 = ⟨5, -324⟩ := by decide +kernel
example : shortest 0x3E60000000000000 = ⟨29802322387695313, -24⟩ := by decide +kernel
example : (shortest 0).chars = ['0'] := by decide +kernel

end Double

end MiniLisp
