import MiniLisp.Report.Drawing
import MiniLisp.Session

/-!
# One-shot runs

The program run once, from its arguments or its standard input to its two outputs and its exit code.
This file fixes:

* the arguments, joined by blanks, are the program; without arguments the standard input is, and
  then it has to be UTF-8;
* the value of the last form goes to the standard output, an error as a report to the standard
  error;
* the exit code is 0 exactly if nothing failed.
-/

namespace MiniLisp.Console

/-- What a program leaves behind. -/
structure Output where
  exitCode : Nat
  stdout : String
  stderr : String
  deriving DecidableEq, Repr

/-- What is said of bytes that are not UTF-8. -/
def invalidUtf8Text : String := "stream did not contain valid UTF-8"

/-- The text of an error: its report, or its message where there is no report. -/
def errorText (e : Error Empty) (text : String) : String :=
  match e.draw text with
  | .ok picture => picture
  | .error _ => "Error: " ++ e.message ++ "\n"

/-- The output of a program text. -/
def runText (text : String) : Output :=
  match (runAll (Environment.standard : Environment Empty) text).outcome with
  | .ok (some value) => ⟨0, value.text ++ "\n", ""⟩
  | .ok none => ⟨0, "", ""⟩
  | .error e => ⟨1, "", errorText e text⟩

/-- The output of the program for its arguments and its standard input. -/
def batch (args : List String) (stdin : ByteArray) : Output :=
  match args with
  | [] =>
    match String.fromUTF8? stdin with
    | some text => runText text
    | none => ⟨1, "", "Failed to read stdin: " ++ invalidUtf8Text ++ "\n"⟩
  | args => runText (" ".intercalate args)

end MiniLisp.Console
