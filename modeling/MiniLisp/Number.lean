import MiniLisp.Decimal.Literal
import MiniLisp.Decimal.Shortest

/-!
# Numbers and their text

Numbers are doubles. This file ties them to text, in both directions:

* `ofText?` reads every literal (`MiniLisp.Decimal.Literal`), rounding to the nearest double; a
  literal beyond the range reads as an infinity, one that is too small as a zero with its sign;
* `finite?` reads only what denotes a finite double: what an atom of a program has to be to count as
  a number;
* `text` writes the shortest decimal that reads back, in positional notation, the sign in front
  (also that of a negative zero), and the words `inf` and `NaN` for what no decimal denotes.
-/

namespace MiniLisp

namespace Number

/-! ## 1. Reading -/

/-- The bits of the double that is no number. -/
def undefinedBits : Nat := 0x7FF8000000000000

/-- The bits, without sign, of the double nearest to a magnitude. -/
def magnitudeBits : Magnitude → Nat
  | .finite d => d.nearestBits
  | .infinite => Double.infinityBits
  | .undefined => undefinedBits

/-- The number a text is a literal of. -/
def ofText? (text : String) : Option Float :=
  (Literal.ofChars? text.toList).map fun l => Double.ofBits l.negative (magnitudeBits l.magnitude)

/-- The finite number a text is a literal of. -/
def finite? (text : String) : Option Float :=
  match Literal.ofChars? text.toList with
  | some l =>
    let bits := magnitudeBits l.magnitude
    if bits < Double.infinityBits then some (Double.ofBits l.negative bits) else none
  | none => none

/-! ## 2. Writing -/

/-- The text of bits without a sign. -/
def magnitudeChars (bits : Nat) : List Char :=
  if bits = Double.infinityBits then "inf".toList else (Double.shortest bits).chars

/-- The text of a number. -/
def text (x : Float) : String :=
  let bits := x.toBits.toNat
  let magnitude := bits % Double.signBit
  if Double.infinityBits < magnitude then "NaN"
  else if Double.signBit ≤ bits then String.ofList ('-' :: magnitudeChars magnitude)
  else String.ofList (magnitudeChars magnitude)

end Number

end MiniLisp
