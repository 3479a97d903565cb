import MiniLisp.Error
import MiniLisp.Token

/-!
# The reader: from tokens to nodes

Tokens are taken one by one into a `Nest`: the forms that are complete, and the lists that are still
open, innermost first. This file fixes:

* what one token does (`Nest.push`); only a closing parenthesis without an open list is refused;
* `readAll`: every form of a sequence of tokens. It fails at the first parenthesis that closes
  nothing, and otherwise at the end if a list is still open;
* `readOne`: the first form, and the tokens behind it. Where reading fails, the tokens looked at are
  gone: one closing parenthesis, or everything behind an opening one that is never closed;
* `answers`: a reader that keeps its place, asked for one form after another.
-/

namespace MiniLisp

variable {ω : Type}

/-! ## 1. Lists under construction -/

/-- A list whose closing parenthesis has not come yet, its items newest first. -/
structure OpenList (ω : Type) where
  opening : Span
  items : List (Node ω)

/-- What has been read so far: open lists, innermost first, and complete forms, newest first. -/
structure Nest (ω : Type) where
  lists : List (OpenList ω)
  forms : List (Node ω)

namespace Nest

/-- Nothing has been read. -/
def empty : Nest ω := ⟨[], []⟩

/-- A complete node goes into the innermost open list; outside of all lists it is a form. -/
def add (n : Node ω) : Nest ω → Nest ω
  | ⟨[], forms⟩ => ⟨[], n :: forms⟩
  | ⟨inner :: outer, forms⟩ => ⟨⟨inner.opening, n :: inner.items⟩ :: outer, forms⟩

/-- One token more. A list reaches from its opening to its closing parenthesis. -/
def push (nest : Nest ω) (t : Token) : Except ReadError (Nest ω) :=
  match t.lexeme with
  | .opening => .ok ⟨⟨t.span, []⟩ :: nest.lists, nest.forms⟩
  | .atom text => .ok (nest.add (.ofAtom text t.span))
  | .closing =>
    match nest.lists with
    | [] => .error (.unexpectedClose t.span)
    | inner :: outer =>
      .ok (add (.list inner.items.reverse (inner.opening.merge t.span)) ⟨outer, nest.forms⟩)

/-- Several tokens more, up to the first that is refused. -/
def pushAll (nest : Nest ω) : List Token → Except ReadError (Nest ω)
  | [] => .ok nest
  | t :: ts =>
    match nest.push t with
    | .ok next => next.pushAll ts
    | .error cause => .error cause

/-- The forms in order, where no list is open any more. -/
def finish (nest : Nest ω) : Except ReadError (List (Node ω)) :=
  match nest.lists with
  | [] => .ok nest.forms.reverse
  | _ :: _ => .error (.unexpectedEnd .closing)

@[simp] theorem push_opening (nest : Nest ω) (s : Span) :
    nest.push ⟨.opening, s⟩ = .ok ⟨⟨s, []⟩ :: nest.lists, nest.forms⟩ := rfl

@[simp] theorem push_atom (nest : Nest ω) (text : String) (s : Span) :
    nest.push ⟨.atom text, s⟩ = .ok (nest.add (.ofAtom text s)) := rfl

@[simp] theorem push_closing_cons (inner : OpenList ω) (outer : List (OpenList ω))
    (forms : List (Node ω)) (s : Span) :
    push ⟨inner :: outer, forms⟩ ⟨.closing, s⟩ =
      .ok (add (.list inner.items.reverse (inner.opening.merge s)) ⟨outer, forms⟩) := rfl

/-- Tokens may be taken in two parts. -/
theorem pushAll_append (nest : Nest ω) (ts us : List Token) :
    nest.pushAll (ts ++ us) = (nest.pushAll ts).bind (·.pushAll us) := by
  induction ts generalizing nest with
  | nil => rfl
  | cons t ts ih =>
    simp only [List.cons_append, pushAll]
    cases nest.push t with
    | error cause => rfl
    | ok next => exact ih next

end Nest

/-! ## 2. All forms -/

/-- Every form of the tokens, in order. -/
def readAll (tokens : List Token) : Except ReadError (List (Node ω)) :=
  (Nest.empty.pushAll tokens).bind Nest.finish

/-! ## 3. One form -/

/-- The first form that the tokens complete, and the tokens behind it. -/
def readUntilForm (nest : Nest ω) : List Token → Except ReadError (Node ω) × List Token
  | [] => (.error (.unexpectedEnd .closing), [])
  | t :: ts =>
    match nest.push t with
    | .error e => (.error e, ts)
    | .ok ⟨[], form :: _⟩ => (.ok form, ts)
    | .ok next => readUntilForm next ts

/-- The first form of the tokens, and the tokens that are left. -/
def readOne : List Token → Except ReadError (Node ω) × List Token
  | [] => (.error (.unexpectedEnd .expression), [])
  | t :: ts => readUntilForm .empty (t :: ts)

/-- The first form of a text. -/
def readText (text : String) : Except ReadError (Node ω) := (readOne (tokenize text)).1

/-! ## 4. Form after form -/

/-- What a reader that keeps its place is asked for: a form, or whether no token is left. -/
inductive Ask where
  | form
  | atEnd
  deriving DecidableEq, Repr

/-- What it answers. -/
inductive Answer (ω : Type) where
  | form (result : Except ReadError (Node ω))
  | atEnd (empty : Bool)

/-- The answer to one question, and the tokens that are left then. -/
def Ask.answer (tokens : List Token) : Ask → Answer ω × List Token
  | form =>
    let (result, left) := readOne tokens
    (.form result, left)
  | atEnd => (.atEnd tokens.isEmpty, tokens)

/-- The answers to several questions, each about what the one before it has left. -/
def answers (tokens : List Token) : List Ask → List (Answer ω) × List Token
  | [] => ([], tokens)
  | ask :: asks =>
    let (first, left) := ask.answer tokens
    let (others, last) := answers left asks
    (first :: others, last)

end MiniLisp
