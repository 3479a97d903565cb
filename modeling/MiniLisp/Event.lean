import MiniLisp.Node

/-!
# Events: what a run reports about itself

A run leaves a log of three kinds of events, in the order in which they happened: a text was cut
into tokens, a procedure was called, a name was given a value. This file fixes the events and the
line each of them is logged with.
-/

namespace MiniLisp

variable {ω : Type}

/-- Something that happened in a run. -/
inductive Event (ω : Type) where
  | tokenized (count : Nat)
  | called (procedure : String) (arguments : Nat)
  | defined (name : String) (value : Node ω)

/-- The line an event is logged with: level, place, and what happened. -/
def Event.line : Event ω → String
  | tokenized count => "TRACE lispy::lexer: tokenized input count=" ++ toString count
  | called procedure arguments =>
    "TRACE lispy::evaluator: apply procedure=\"" ++ procedure ++ "\" argc=" ++ toString arguments
  | defined name value =>
    "DEBUG lispy::evaluator: define name=" ++ name ++ " value=" ++ value.text

end MiniLisp
