import MiniLisp.Decimal.Basic

/-!
# Number literals

The written forms of a number, over all strings of characters. This file fixes the grammar:

* an optional sign;
* then ASCII digits with at most one point among them, at least one digit in all, and optionally an
  exponent: `e` or `E`, an optional sign, at least one digit;
* or, in the place of the digits, one of the words `inf`, `infinity` and `nan`, in any letter case.

Nothing may stand before, between or behind: no blank, no underscore. The length of digits and
exponent is not bounded, and a literal keeps its exact value; rounding is the matter of
`MiniLisp.Decimal.Nearest`.
-/

namespace MiniLisp

/-- What a literal without its sign denotes. -/
inductive Magnitude where
  | finite (value : Decimal)
  | infinite
  | undefined
  deriving DecidableEq, Repr

/-- A signed literal. The sign is kept where it changes no value, as in `-0`. -/
structure Literal where
  negative : Bool
  magnitude : Magnitude
  deriving DecidableEq, Repr

namespace Literal

/-! ## 1. Digits and signs -/

/-- A sign, if there is one, taken off the front: whether it is a minus, and the rest. -/
def splitSign : List Char → Bool × List Char
  | '-' :: cs => (true, cs)
  | '+' :: cs => (false, cs)
  | cs => (false, cs)

/-- The characters as one or more digits and nothing else. -/
def digits? (cs : List Char) : Option Nat :=
  if cs ≠ [] ∧ cs.all Char.isDigit then some (Nat.ofDigitChars 10 cs 0) else none

/-- What follows the digits: nothing, or an exponent. -/
def exponent? : List Char → Option Int
  | [] => some 0
  | c :: cs =>
    if c = 'e' ∨ c = 'E' then
      let (negative, ds) := splitSign cs
      (digits? ds).map fun n => if negative then -(n : Int) else n
    else none

/-! ## 2. Magnitudes -/

/-- The digits behind a point, if the characters begin with one, and what follows them. -/
def splitFraction : List Char → List Char × List Char
  | '.' :: cs => (cs.takeWhile Char.isDigit, cs.dropWhile Char.isDigit)
  | cs => ([], cs)

/-- Digits, point, digits and exponent as one decimal: each digit behind the point takes one off the
    exponent. -/
def decimal? (cs : List Char) : Option Decimal :=
  let whole := cs.takeWhile Char.isDigit
  let (frac, rest) := splitFraction (cs.dropWhile Char.isDigit)
  if whole = [] ∧ frac = [] then none
  else (exponent? rest).map fun e =>
    ⟨Nat.ofDigitChars 10 (whole ++ frac) 0, e - frac.length⟩

/-- The words for what no decimal denotes. -/
def word? (cs : List Char) : Option Magnitude :=
  let small := cs.map Char.toLower
  if small = "inf".toList ∨ small = "infinity".toList then some .infinite
  else if small = "nan".toList then some .undefined
  else none

/-- An unsigned literal. -/
def magnitude? (cs : List Char) : Option Magnitude :=
  match decimal? cs with
  | some d => some (.finite d)
  | none => word? cs

/-- The literal that the characters are, if they are one. -/
def ofChars? (cs : List Char) : Option Literal :=
  let (negative, body) := splitSign cs
  (magnitude? body).map (⟨negative, ·⟩)

example : ofChars? "-1.50e3".toList = some ⟨true, .finite ⟨150, 1⟩⟩ := by decide
example : ofChars? "+.5".toList = some ⟨false, .finite ⟨5, -1⟩⟩ := by decide
example : ofChars? "1.".toList = some ⟨false, .finite ⟨1, 0⟩⟩ := by decide
example : ofChars? "-Infinity".toList = some ⟨true, .infinite⟩ := by decide
example : ofChars? "NaN".toList = some ⟨false, .undefined⟩ := by decide
example : ofChars? "".toList = none := by decide
example : ofChars? ".".toList = none := by decide
example : ofChars? "1e".toList = none := by decide
example : ofChars? "--5".toList = none := by decide
example : ofChars? "1_000".toList = none := by decide

end Literal

end MiniLisp
