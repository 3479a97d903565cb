import MiniLisp.Console.Batch
import MiniLisp.Parens
import MiniLisp.Text.Backspace

/-!
# Dialogues: the program fed line by line

The program as it converses over a pipe: each line, or each group of lines up to the point where all
parentheses are closed, is run in one lasting environment. This file fixes:

* lines are collected, without the last line end and with backspaces applied, until `balance` calls
  the text complete. While parentheses are open the line end is put back. A parenthesis that closes
  nothing is reported, and the text is kept: the next line goes on behind it, and its backspaces
  reach back into it;
* a complete text is trimmed of blanks; an empty one is passed over and the word `exit`, in any
  letter case, ends the dialogue;
* the value of the last form is printed, an error is reported over the trimmed text, and the
  dialogue goes on either way;
* a line that is not UTF-8 ends the dialogue, and so does the end of the input, where an incomplete
  text is dropped.

The exit code is 0 however a dialogue ends.
-/

namespace MiniLisp.Console

/-! ## 1. Lines -/

/-- The byte of a line feed. -/
def lineFeed : UInt8 := 10

/-- The bytes of each line, with its line feed. -/
def byteLines : List UInt8 → List (List UInt8)
  | [] => []
  | b :: bs =>
    if b = lineFeed then [b] :: byteLines bs
    else match byteLines bs with
      | [] => [[b]]
      | line :: more => (b :: line) :: more

/-- A text and the line end behind it: a line feed, with the carriage return before that. -/
def splitLineEnd (text : List Char) : List Char × List Char :=
  match text.reverse with
  | '\n' :: '\r' :: rest => (rest.reverse, ['\r', '\n'])
  | '\n' :: rest => (rest.reverse, ['\n'])
  | _ => (text, [])

/-! ## 2. Dialogues -/

/-- A dialogue under way: the environment, the characters that are not complete yet, and what has
    been printed. -/
structure Dialogue where
  env : Environment Empty
  pending : List Char
  stdout : String
  stderr : String

namespace Dialogue

/-- What is printed before the first line; `history` says whether earlier lines were found. -/
def greeting (history : Bool) : String :=
  "lispy REPL v0.1.0\nType 'exit' or press Ctrl-D to quit.\n"
    ++ if history then "" else "No previous history.\n"

/-- A dialogue before its first line. -/
def start (history : Bool) : Dialogue := ⟨.standard, [], greeting history, ""⟩

/-- The end of a dialogue. -/
def finish (d : Dialogue) : Output := ⟨0, d.stdout, d.stderr⟩

/-- Whether a text is the word that ends the dialogue. -/
def isExit (text : List Char) : Bool := text.map Char.toLower == "exit".toList

/-- Runs a complete text and prints what comes of it. -/
def answer (d : Dialogue) (text : String) : Dialogue :=
  let run := runAll d.env text
  match run.outcome with
  | .ok (some value) => ⟨run.env, [], d.stdout ++ value.text ++ "\n", d.stderr⟩
  | .ok none => ⟨run.env, [], d.stdout, d.stderr⟩
  | .error e => ⟨run.env, [], d.stdout, d.stderr ++ errorText e text⟩

/-- Runs a complete text unless it is blank; none if it ends the dialogue. -/
def accept? (d : Dialogue) (text : List Char) : Option Dialogue :=
  let trimmed := Text.trim text
  if trimmed = [] then some ⟨d.env, [], d.stdout, d.stderr⟩
  else if isExit trimmed then none
  else some (d.answer (String.ofList trimmed))

/-- Takes one line more; none if it ends the dialogue. -/
def take? (d : Dialogue) (line : String) : Option Dialogue :=
  let (typed, lineEnd) := splitLineEnd (d.pending ++ line.toList)
  let text := Text.applyBackspaces typed
  match balance (String.ofList text) with
  | .unmatched position =>
    some ⟨d.env, text, d.stdout,
      d.stderr ++ "  - Unmatched ')' at position " ++ toString position⟩
  | .incomplete => some ⟨d.env, text ++ lineEnd, d.stdout, d.stderr⟩
  | .complete => d.accept? text

/-- What is printed of a line that is not UTF-8. -/
def invalidLineText : String :=
  "Readline Error: Io(Error \x7b kind: InvalidData, message: \"" ++ invalidUtf8Text ++ "\" \x7d)\n"

/-- The output of a dialogue over the lines that are left. -/
def converse (d : Dialogue) : List (List UInt8) → Output
  | [] => ⟨0, d.stdout ++ "\nExiting.\n", d.stderr⟩
  | bytes :: more =>
    match String.fromUTF8? ⟨bytes.toArray⟩ with
    | none => ⟨0, d.stdout, d.stderr ++ invalidLineText⟩
    | some line =>
      match d.take? line with
      | none => d.finish
      | some next => next.converse more

end Dialogue

/-- The output of a whole dialogue; `history` says whether earlier lines were found. -/
def dialogue (history : Bool) (stdin : ByteArray) : Output :=
  (Dialogue.start history).converse (byteLines stdin.toList)

end MiniLisp.Console
