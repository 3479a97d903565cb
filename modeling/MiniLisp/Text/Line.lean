/-!
# Lines

A text is cut into lines behind each line end: line feed, vertical tab, form feed, carriage return,
next line, line separator and paragraph separator, where a carriage return before a line feed is no
end of its own. This file fixes:

* `splitLines`: the lines with their ends; an end at the end of the text opens no further line;
* `Line`: a line with its number and its place, counted in characters. An empty text has one empty
  line;
* `lineAt?`: the line an offset falls into; the end of the text belongs to the last line.
-/

namespace MiniLisp.Text

/-- The characters that end a line. -/
def isLineEnd (c : Char) : Bool :=
  let n := c.toNat
  (0xA ≤ n && n ≤ 0xD) || n = 0x85 || n = 0x2028 || n = 0x2029

/-- Whether the line ends between `c` and what follows it. -/
def endsLine (c : Char) (rest : List Char) : Bool :=
  isLineEnd c && !(c = '\r' && rest.head? = some '\n')

/-- The lines of a text, each with its end. -/
def splitLines : List Char → List (List Char)
  | [] => []
  | c :: cs =>
    if endsLine c cs then [c] :: splitLines cs
    else match splitLines cs with
      | [] => [[c]]
      | line :: more => (c :: line) :: more

/-- A line with its number, counted from 0, and the number of characters before it. -/
structure Line where
  index : Nat
  start : Nat
  chars : List Char
  deriving DecidableEq, Repr

/-- Numbers and places of lines that follow each other. -/
def placeLines (index start : Nat) : List (List Char) → List Line
  | [] => []
  | chars :: more => ⟨index, start, chars⟩ :: placeLines (index + 1) (start + chars.length) more

/-- The lines of a text; at least one. -/
def lines (cs : List Char) : List Line :=
  match splitLines cs with
  | [] => [⟨0, 0, []⟩]
  | more => placeLines 0 0 more

/-- The line in which the character at an offset stands; none beyond the end of the text. -/
def lineAt? (cs : List Char) (offset : Nat) : Option Line :=
  if cs.length < offset then none
  else ((lines cs).takeWhile (·.start ≤ offset)).getLast?

example : (splitLines "a\r\nb\rc\n".toList).map String.ofList = ["a\r\n", "b\r", "c\n"] := by decide
example : lines [] = [⟨0, 0, []⟩] := rfl

end MiniLisp.Text
