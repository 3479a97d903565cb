import MiniLisp.Node

/-!
# Errors and their messages

An error is a cause: a constructor with what the cause is about and, nearly always, the span that is
to blame. The wording of an error on one line is in this file alone:

* `ReadError`: a sequence of tokens that is no sequence of expressions;
* `EvalError`: an expression without a value;
* `Error`: either of them, or a token that could not be made.

A host may raise errors of its own through the `other` constructors, with its own words. Cutting a
text into tokens never fails, so the two `invalidToken` errors are raised by hosts alone, which may
make their tokens otherwise.
-/

namespace MiniLisp

variable {ω : Type}

/-! ## 1. What was expected -/

/-- What a place asks for. -/
inductive Expectation where
  | expression
  | closing
  | number
  | exactly (count : Nat)
  | atLeast (count : Nat)
  | other (text : String)
  deriving DecidableEq, Repr

/-- The words for what a place asks for. -/
def Expectation.text : Expectation → String
  | expression => "an expression"
  | closing => "')'"
  | number => "number"
  | exactly count => "exactly " ++ toString count
  | atLeast count => "at least " ++ toString count
  | other text => text

/-- What is wrong with a form that cannot be evaluated. -/
inductive FormProblem where
  | emptyList
  | operandCount (found : Nat)
  | target (found : Kind)
  | other (text : String)
  deriving DecidableEq, Repr

/-- The words for what is wrong with a form. -/
def FormProblem.text : FormProblem → String
  | emptyList => "cannot evaluate an empty list"
  | operandCount found =>
    "define expects a symbol and an expression, got " ++ toString found ++ " operands"
  | target found => "define expects a symbol to bind, got " ++ found.text
  | other text => text

/-! ## 2. Errors -/

/-- Why tokens are no expressions. -/
inductive ReadError where
  | invalidToken (span : Span)
  | unexpectedClose (span : Span)
  | unexpectedEnd (expected : Expectation)
  deriving DecidableEq, Repr

/-- Why an expression has no value. A value that is quoted stands nowhere. -/
inductive EvalError (ω : Type) where
  | unbound (name : String) (span : Span)
  | notAProcedure (found : Node ω) (span : Span)
  | invalidForm (problem : FormProblem) (span : Span)
  | wrongArity (procedure : String) (expected : Expectation) (found : Nat) (span : Span)
  | typeMismatch (expected : Expectation) (found : Node ω) (span : Span)

/-- Why a text has no value. -/
inductive Error (ω : Type) where
  | invalidToken (span : Span)
  | read (cause : ReadError)
  | eval (cause : EvalError ω)

/-- The span to blame, where there is one. -/
def ReadError.span? : ReadError → Option Span
  | invalidToken span => some span
  | unexpectedClose span => some span
  | unexpectedEnd _ => none

/-- The span to blame. -/
def EvalError.span : EvalError ω → Span
  | unbound _ span => span
  | notAProcedure _ span => span
  | invalidForm _ span => span
  | wrongArity _ _ _ span => span
  | typeMismatch _ _ span => span

/-- The span to blame, where there is one. -/
def Error.span? : Error ω → Option Span
  | invalidToken span => some span
  | read cause => cause.span?
  | eval cause => some cause.span

/-! ## 3. Messages -/

/-- The words for a token that could not be made. -/
def invalidTokenText : String := "Invalid Token"

/-- A reading error on one line. -/
def ReadError.message : ReadError → String
  | invalidToken _ => "Lexer Error during parse: " ++ invalidTokenText
  | unexpectedClose span => "Parse Error [at " ++ span.text ++ "]: Unexpected close paren"
  | unexpectedEnd expected =>
    "Parse Error: Unexpected end of input during parsing. Expected " ++ expected.text

/-- An evaluation error on one line. -/
def EvalError.message : EvalError ω → String
  | unbound name _ => "Unbound symbol: '" ++ name ++ "'"
  | notAProcedure found _ => "Evaluation Error: Expected a procedure, but got: " ++ found.text
  | invalidForm problem _ => "Evaluation Error: Invalid form - " ++ problem.text
  | wrongArity procedure expected found _ =>
    "Evaluation Error: Procedure '" ++ procedure ++ "' expects " ++ expected.text
      ++ " arguments, got " ++ toString found
  | typeMismatch expected found _ =>
    "Evaluation Error: Expected " ++ expected.text ++ ", but got " ++ found.kind.text ++ ": "
      ++ found.text

/-- An error on one line. -/
def Error.message : Error ω → String
  | invalidToken _ => invalidTokenText
  | read cause => cause.message
  | eval cause => cause.message

end MiniLisp
