import MiniLisp.Number
import MiniLisp.Span

/-!
# Nodes: programs and values

Programs and values are one type: trees of symbols, numbers and lists, each with the span it comes
from. This file fixes:

* `Node ω`, where `ω` names the operations a host adds to the built-in ones (none: `Empty`);
* how a node is written (`text`), and that an atom is a number exactly where `Number.finite?` reads
  one, else a symbol (`ofAtom`);
* the equality of nodes (`same`): spans count, numbers compare as doubles do (so a NaN differs from
  itself and the two zeros are equal), and procedures compare by arity class and name alone.
-/

namespace MiniLisp

variable {ω : Type}

/-! ## 1. Procedures -/

/-- What takes any number of arguments: the built-in sequence, or an operation of the host. -/
inductive Variadic (ω : Type) where
  | sequence
  | host (operation : ω)
  deriving DecidableEq

/-- What a program can call, under the name it is shown with. -/
inductive Procedure (ω : Type) where
  | binary (operation : Float → Float → Float) (name : String)
  | variadic (operation : Variadic ω) (name : String)

namespace Procedure

/-- The name a procedure is shown with. -/
def name : Procedure ω → String
  | binary _ name => name
  | variadic _ name => name

/-- Operations cannot be compared, so procedures are by arity class and name. -/
def same : Procedure ω → Procedure ω → Bool
  | binary _ a, binary _ b => a == b
  | variadic _ a, variadic _ b => a == b
  | _, _ => false

instance : BEq (Procedure ω) := ⟨same⟩

end Procedure

/-! ## 2. Nodes -/

/-- A symbol, number, list or procedure at its place in a text. -/
inductive Node (ω : Type) where
  | symbol (name : String) (span : Span)
  | number (value : Float) (span : Span)
  | list (items : List (Node ω)) (span : Span)
  | procedure (procedure : Procedure ω) (span : Span)
  deriving Inhabited

/-- The four kinds of nodes. -/
inductive Kind where
  | symbol
  | number
  | list
  | procedure
  deriving DecidableEq, Repr

/-- The word for a kind. -/
def Kind.text : Kind → String
  | symbol => "symbol"
  | number => "number"
  | list => "list"
  | procedure => "procedure"

namespace Node

/-- Which of the four a node is. -/
def kind : Node ω → Kind
  | symbol .. => .symbol
  | number .. => .number
  | list .. => .list
  | procedure .. => .procedure

/-- Where the node stands. -/
def span : Node ω → Span
  | symbol _ span => span
  | number _ span => span
  | list _ span => span
  | procedure _ span => span

/-- The same node at another place; its children stay where they are. -/
def withSpan (place : Span) : Node ω → Node ω
  | symbol name _ => symbol name place
  | number value _ => number value place
  | list items _ => list items place
  | procedure p _ => procedure p place

/-- The node without its own place, as an error quotes it. -/
def unplaced (n : Node ω) : Node ω := n.withSpan Span.nowhere

/-- The node of an atom: a number where the characters are a literal of a finite one. -/
def ofAtom (text : String) (span : Span) : Node ω :=
  match Number.finite? text with
  | some x => number x span
  | none => symbol text span

@[simp] theorem span_withSpan (s : Span) (n : Node ω) : (n.withSpan s).span = s := by
  cases n <;> rfl

@[simp] theorem kind_withSpan (s : Span) (n : Node ω) : (n.withSpan s).kind = n.kind := by
  cases n <;> rfl

@[simp] theorem span_ofAtom (text : String) (s : Span) : (ofAtom text s : Node ω).span = s := by
  unfold ofAtom
  split <;> rfl

/-- An atom is no list. -/
theorem ofAtom_ne_list (text : String) (s t : Span) (items : List (Node ω)) :
    ofAtom text s ≠ list items t := by
  unfold ofAtom
  split <;> nofun

/-! ## 3. Text -/

mutual

/-- A node as it is written: a list in parentheses, its items apart by one blank. -/
def text : Node ω → String
  | symbol name _ => name
  | number x _ => Number.text x
  | list items _ => "(" ++ " ".intercalate (texts items) ++ ")"
  | procedure p _ => "#<primitive:" ++ p.name ++ ">"

/-- Nodes as they are written, each for itself. -/
def texts : List (Node ω) → List String
  | [] => []
  | n :: rest => n.text :: texts rest

end

@[simp] theorem texts_eq_map (items : List (Node ω)) : texts items = items.map text := by
  induction items with
  | nil => rfl
  | cons n rest ih => simp [texts, ih]

/-! ## 4. Equality -/

mutual

/-- Equality of nodes, spans included. -/
def same : Node ω → Node ω → Bool
  | symbol a s, symbol b t => a == b && s == t
  | number x s, number y t => x == y && s == t
  | list as s, list bs t => sameItems as bs && s == t
  | procedure p s, procedure q t => p == q && s == t
  | _, _ => false

/-- Equality of lists of nodes, item by item. -/
def sameItems : List (Node ω) → List (Node ω) → Bool
  | [], [] => true
  | a :: as, b :: bs => same a b && sameItems as bs
  | _, _ => false

end

instance : BEq (Node ω) := ⟨same⟩

/-- Equality of nodes wherever they stand themselves; the places of their children count. -/
def sameForm (a b : Node ω) : Bool := a.unplaced == b.unplaced

end Node

end MiniLisp
