import MiniLisp.Error

/-!
# Reports: an error as it is shown over its text

A report says what is wrong (the headline), where (the span) and why (the label under the span).
This file fixes which headline and label each error has, and that a report exists only for a span
that does not run backwards. How a report is drawn is the matter of `MiniLisp.Report.Drawing`.
-/

namespace MiniLisp

variable {ω : Type}

/-- What is shown of an error. -/
structure Report where
  headline : String
  label : String
  span : Span
  ordered : span.start ≤ span.stop

/-- Why an error cannot be shown. -/
inductive ReportError where
  | reversed (span : Span)
  deriving DecidableEq, Repr

/-- The words for why an error cannot be shown. -/
def ReportError.message : ReportError → String
  | reversed _ => "Label start is after its end"

/-! ## 1. What is wrong -/

/-- The headline of a token that could not be made. -/
def invalidTokenHeadline : String := "Lexer Error"

/-- The headline of a reading error. -/
def ReadError.headline : ReadError → String
  | invalidToken _ => invalidTokenHeadline
  | unexpectedClose _ => "Unexpected token: )"
  | unexpectedEnd _ => "Unexpected end of input"

/-- The headline of an evaluation error. -/
def EvalError.headline : EvalError ω → String
  | unbound name _ => "Unbound symbol `" ++ name ++ "`"
  | notAProcedure found _ => "Not a procedure: " ++ found.text
  | invalidForm _ _ => "Invalid form"
  | wrongArity procedure _ _ _ => "Wrong number of arguments to `" ++ procedure ++ "`"
  | typeMismatch _ found _ => "Type mismatch: " ++ found.text

/-- The headline of an error. -/
def Error.headline : Error ω → String
  | invalidToken _ => invalidTokenHeadline
  | read cause => cause.headline
  | eval cause => cause.headline

/-! ## 2. Why -/

/-- The label of a reading error. -/
def ReadError.label : ReadError → String
  | invalidToken _ => invalidTokenText
  | unexpectedClose _ => "This parenthesis closes nothing"
  | unexpectedEnd expected => "Expected " ++ expected.text

/-- The label of an evaluation error. -/
def EvalError.label : EvalError ω → String
  | unbound _ _ => "This symbol has not been defined"
  | notAProcedure _ _ => "This expression cannot be called as a procedure"
  | invalidForm problem _ => problem.text
  | wrongArity _ expected found _ =>
    "Expected " ++ expected.text ++ " arguments, got " ++ toString found
  | typeMismatch expected found _ =>
    "Expected " ++ expected.text ++ ", found " ++ found.kind.text

/-- The label of an error. -/
def Error.label : Error ω → String
  | invalidToken _ => invalidTokenText
  | read cause => cause.label
  | eval cause => cause.label

/-! ## 3. Where -/

/-- The span a report points at: an error without one is about the end of the text. -/
def Error.blame (e : Error ω) (text : String) : Span :=
  e.span?.getD ⟨text.utf8ByteSize, text.utf8ByteSize⟩

/-- The report of an error over the text it is about. -/
def Error.report (e : Error ω) (text : String) : Except ReportError Report :=
  let span := e.blame text
  if h : span.start ≤ span.stop then .ok ⟨e.headline, e.label, span, h⟩
  else .error (.reversed span)

/-- The only obstacle to a report is a span that runs backwards. -/
theorem Error.report_eq_ok {e : Error ω} {text : String}
    (h : (e.blame text).start ≤ (e.blame text).stop) :
    e.report text = .ok ⟨e.headline, e.label, e.blame text, h⟩ := by
  simp [Error.report, h]

end MiniLisp
