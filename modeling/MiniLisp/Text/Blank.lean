/-!
# Blanks

The characters with the Unicode property White_Space: those that are stripped from a line before it
is judged, and drawn as empty space. They are more than the five separators of tokens; a no-break
space, for instance, is a blank here and part of an atom there.
-/

namespace MiniLisp.Text

/-- The code points with the property White_Space. -/
def isBlank (c : Char) : Bool :=
  let n := c.toNat
  (0x9 ≤ n && n ≤ 0xD) || n = 0x20 || n = 0x85 || n = 0xA0 || n = 0x1680
    || (0x2000 ≤ n && n ≤ 0x200A) || n = 0x2028 || n = 0x2029 || n = 0x202F || n = 0x205F
    || n = 0x3000

/-- The characters up to the last one that is no blank. -/
def trimRight (cs : List Char) : List Char := (cs.reverse.dropWhile isBlank).reverse

/-- The characters from the first to the last one that is no blank. -/
def trim (cs : List Char) : List Char := trimRight (cs.dropWhile isBlank)

end MiniLisp.Text
