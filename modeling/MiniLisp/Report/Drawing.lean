import MiniLisp.Report
import MiniLisp.Text.Blank
import MiniLisp.Text.Line
import MiniLisp.Text.Width

/-!
# Drawing a report

A report is drawn as rows of text: the headline, the place, the lines of the text that the span
touches with a mark under or beside them, and the label. This file fixes:

* **the renderer takes the two offsets of the span as counts of characters**; where characters of
  several bytes come before, the mark stands further to the right than the blamed text, and beyond
  the end of the text only the headline is left;
* a line is drawn without the blanks at its end, each blank inside as one column, a tab up to the
  next multiple of four;
* a span within one line is underlined; one over several lines is bracketed at their left.
-/

namespace MiniLisp

open Text

/-! ## 1. Columns -/

/-- The characters of a line that are drawn. -/
def Text.Line.drawn (line : Line) : List Char := trimRight line.chars

/-- How many columns the character `c` at index `i` of its line takes. -/
def columnWidth (i : Nat) (c : Char) : Nat :=
  if c = '\t' then (i / 4 + 1) * 4 - i
  else if isBlank c then 1
  else charWidth c

/-- The widths of the drawn characters of a line. -/
def Text.Line.widths (line : Line) : Array Nat :=
  (line.drawn.zipIdx.map fun (c, i) => columnWidth i c).toArray

/-- The width at an index; beyond the drawn characters every place is one column wide. -/
def widthAt (widths : Array Nat) (i : Nat) : Nat := (widths[i]?).getD 1

/-- A place filled to its width: its first character once, then the filler. -/
def fill (width : Nat) (first filler : Char) : String :=
  match width with
  | 0 => ""
  | more + 1 => String.ofList (first :: List.replicate more filler)

/-- A line as it is drawn: blanks as empty columns, all else as it is. -/
def Text.Line.picture (line : Line) : String :=
  String.join <| line.drawn.zipIdx.map fun (c, i) =>
    if isBlank c then fill (columnWidth i c) ' ' ' ' else c.toString

/-! ## 2. Margins -/

/-- So many blanks. -/
def blanks (count : Nat) : String := String.ofList (List.replicate count ' ')

/-- So many strokes. -/
def strokes (count : Nat) : String := String.ofList (List.replicate count '─')

/-- The left margin with the number of a line, counted from 1. -/
def numbered (width : Nat) (line : Line) : String :=
  let number := line.index + 1
  " " ++ blanks (width - digitCount number) ++ toString number ++ " │ "

/-- The left margin without a number, as wide as one with. -/
def unnumbered (width : Nat) : String := blanks (width + 2)

/-! ## 3. Bodies -/

/-- The row under an underlined line: strokes below the span, and at `mark` the place the label
    hangs from. -/
def underline (widths : Array Nat) (start stop mark count : Nat) : String :=
  String.join <| (List.range count).map fun i =>
    let under := start ≤ i && i < stop
    let width := widthAt widths i
    if i = mark then if under then fill width '┬' '─' else fill width '│' ' '
    else if under then fill width '─' '─'
    else fill width ' ' ' '

/-- The row that leads from `mark` to the label. -/
def leader (widths : Array Nat) (mark count : Nat) : String :=
  String.join <| (List.range count).map fun i =>
    let width := widthAt widths i
    if i = mark then fill width '╰' '─'
    else if mark < i then fill width '─' '─'
    else fill width ' ' ' '

/-- The body of a report within one line. -/
def oneLineBody (r : Report) (width : Nat) (line : Line) : List String :=
  let start := r.span.start
  let stop := r.span.stop
  let margin := unnumbered width ++ "│ "
  if line.start + line.chars.length < stop then [margin]
  else
    let widths := line.widths
    let mark := max ((start + stop) / 2) start - line.start
    let count := stop - line.start + 2
    [numbered width line ++ line.picture,
      margin ++ underline widths (start - line.start) (stop - line.start) mark count,
      margin ++ leader widths mark count ++ " " ++ r.label]

/-- The body of a report over several lines of a text of `total` characters. -/
def manyLinesBody (r : Report) (width total : Nat) (first last : Line) : List String :=
  let margin := unnumbered width
  let atEnd := decide (r.span.stop - 1 = total)
  let top := [numbered width first ++ "╭─▶ " ++ first.picture]
  let between :=
    if 1 < last.index - first.index || atEnd then [margin ++ "┆ ┆   "] else []
  let bottom :=
    if atEnd then []
    else
      let widths := last.widths
      let count := (List.range (last.chars.length + 2)).foldl (fun n i => n + widthAt widths i) 0
      [numbered width last ++ "├─▶ " ++ last.picture,
        margin ++ "│ │   " ++ blanks count,
        margin ++ "│ ╰───" ++ strokes count ++ " " ++ r.label]
  top ++ between ++ bottom

/-! ## 4. Whole reports -/

/-- The rows of a report over a text. -/
def Report.rows (r : Report) (text : String) : List String :=
  let chars := text.toList
  let start := r.span.start
  let stop := r.span.stop
  let headline := "Error: " ++ r.headline
  let last? := if stop ≤ start then lineAt? chars start else lineAt? chars (stop - 1)
  match lineAt? chars start, last? with
  | some first, some last =>
    let width := digitCount (last.index + 1)
    let margin := unnumbered width
    let place := toString (first.index + 1) ++ ":" ++ toString (start - first.start + 1)
    let body :=
      if first.index = last.index then oneLineBody r width first
      else manyLinesBody r width chars.length first last
    [headline, margin ++ "╭─[ input:" ++ place ++ " ]", margin ++ "│"] ++ body
      ++ [strokes (width + 2) ++ "╯"]
  | _, _ => [headline]

/-- A report over a text, each row with a line feed. -/
def Report.draw (r : Report) (text : String) : String :=
  String.join ((r.rows text).map (· ++ "\n"))

/-- An error as it is shown over its text. -/
def Error.draw {ω : Type} (e : Error ω) (text : String) : Except ReportError String :=
  (e.report text).map (·.draw text)

end MiniLisp
