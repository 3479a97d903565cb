import MiniLisp.Text.Bytes

/-!
# Parentheses of a line

What an editor of programs needs to know about the parentheses of a line before anything is read.
This file fixes:

* `balance`: whether every parenthesis has its partner, some are still open, or one closes nothing;
* `pairing`: the partners, found with a stack of the places of open parentheses;
* `highlight`: the line with the pair under the cursor in blue and each parenthesis that closes
  nothing in red, as terminal escape sequences;
* `highlightInPlace?`: the same going over the line once. What is written of an open parenthesis is
  replaced when its partner comes up.

Places are byte offsets.
-/

namespace MiniLisp

/-! ## 1. Balance -/

/-- How the parentheses of a text stand. -/
inductive Balance where
  | complete
  | incomplete
  | unmatched (position : Nat)
  deriving DecidableEq, Repr

/-- How parentheses stand behind `depth` open ones; the first character is at byte `position`. -/
def balanceFrom (depth position : Nat) : List Char → Balance
  | [] => if depth = 0 then .complete else .incomplete
  | c :: cs =>
    let next := position + c.utf8Size
    if c = '(' then balanceFrom (depth + 1) next cs
    else if c = ')' then
      match depth with
      | 0 => .unmatched position
      | outer + 1 => balanceFrom outer next cs
    else balanceFrom depth next cs

/-- How the parentheses of a text stand. -/
def balance (text : String) : Balance := balanceFrom 0 0 text.toList

/-! ## 2. Partners -/

/-- The places of partners, opening one first, and of closing parentheses without partner. -/
structure Pairing where
  pairs : List (Nat × Nat)
  unmatched : List Nat
  deriving DecidableEq, Repr

/-- The partners behind open parentheses at the places `stack`, innermost first. -/
def pairingFrom (stack : List Nat) (position : Nat) : List Char → Pairing
  | [] => ⟨[], []⟩
  | c :: cs =>
    let next := position + c.utf8Size
    if c = '(' then pairingFrom (position :: stack) next cs
    else if c = ')' then
      match stack with
      | [] =>
        let rest := pairingFrom [] next cs
        ⟨rest.pairs, position :: rest.unmatched⟩
      | opening :: outer =>
        let rest := pairingFrom outer next cs
        ⟨(opening, position) :: rest.pairs, rest.unmatched⟩
    else pairingFrom stack next cs

/-- The partners among the parentheses of a text. -/
def pairing (cs : List Char) : Pairing := pairingFrom [] 0 cs

/-! ## 3. Highlighting -/

/-- The colours of parentheses. -/
inductive Colour where
  | boldBlue
  | blue
  | red
  deriving DecidableEq, Repr

/-- The terminal's number for a colour. -/
def Colour.code : Colour → String
  | boldBlue => "1;34"
  | blue => "34"
  | red => "31"

/-- A character between the escape sequences that switch its colour on and off. -/
def Colour.paint (colour : Colour) (c : Char) : List Char :=
  '\x1b' :: '[' :: colour.code.toList ++ 'm' :: c :: "\x1b[0m".toList

/-- The pair of which one partner is under the cursor. The cursor stands behind its character, so at
    the beginning of a line it is on none. -/
def Pairing.active? (p : Pairing) (cursor : Nat) : Option (Nat × Nat) :=
  match cursor with
  | 0 => none
  | place + 1 => p.pairs.find? fun pair => pair.1 = place || pair.2 = place

/-- The colour of the character at a place, if it has one. -/
def Pairing.colour? (p : Pairing) (active : Option (Nat × Nat)) (position : Nat) : Option Colour :=
  if p.unmatched.contains position then some .red
  else match active with
    | some (opening, closing) =>
      if position = opening then some .boldBlue
      else if position = closing then some .blue
      else none
    | none => none

/-- The characters from byte `position` on, each with its colour. -/
def paintFrom (colour? : Nat → Option Colour) (position : Nat) : List Char → List Char
  | [] => []
  | c :: cs =>
    let rest := paintFrom colour? (position + c.utf8Size) cs
    match colour? position with
    | some colour => colour.paint c ++ rest
    | none => c :: rest

/-- The line with its parentheses coloured for a cursor behind byte `cursor - 1`. -/
def highlight (line : String) (cursor : Nat) : String :=
  let p := pairing line.toList
  String.ofList (paintFrom (p.colour? (p.active? cursor)) 0 line.toList)

/-! ## 4. Highlighting in place -/

/-- A line that is written out with colours, as far as it has been read: the parentheses that are
    still open, innermost first, each with its place in the line and its place in what is written. -/
structure Draft where
  openings : List (Nat × Nat)
  written : List Char
  deriving DecidableEq, Repr

/-- The text with `piece` for the character at byte `place`. There is none where no character of one
    byte begins there. -/
def replaceByte? (place : Nat) (piece : List Char) : List Char → Option (List Char)
  | [] => none
  | c :: cs =>
    if place = 0 then
      if c.utf8Size = 1 then some (piece ++ cs) else none
    else if c.utf8Size ≤ place then
      (replaceByte? (place - c.utf8Size) piece cs).map fun rest => c :: rest
    else none

namespace Draft

/-- The draft with one character more, which is at byte `position` of the line. -/
def write? (cursor : Nat) (d : Draft) (position : Nat) (c : Char) : Option Draft :=
  if c = '(' then some ⟨(position, byteLength d.written) :: d.openings, d.written ++ [c]⟩
  else if c = ')' then
    match d.openings with
    | [] => some { d with written := d.written ++ Colour.red.paint c }
    | (opening, place) :: outer =>
      if cursor = position + 1 ∨ cursor = opening + 1 then
        let written := d.written ++ Colour.blue.paint c
        (replaceByte? place (Colour.boldBlue.paint '(') written).map fun written => ⟨outer, written⟩
      else some ⟨outer, d.written ++ [c]⟩
  else some { d with written := d.written ++ [c] }

/-- The draft with all characters that are left; the first is at byte `position`. -/
def writeAll? (cursor : Nat) (d : Draft) (position : Nat) : List Char → Option Draft
  | [] => some d
  | c :: cs =>
    (d.write? cursor position c).bind fun next => next.writeAll? cursor (position + c.utf8Size) cs

end Draft

/-- The line with its parentheses coloured for a cursor behind byte `cursor - 1`, written once from the
    first character to the last, if no replacement fails. -/
def highlightInPlace? (line : String) (cursor : Nat) : Option String :=
  (Draft.writeAll? cursor ⟨[], []⟩ 0 line.toList).map fun d => String.ofList d.written

end MiniLisp
