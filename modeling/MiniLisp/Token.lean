import MiniLisp.Span
import MiniLisp.Text.Bytes

/-!
# Tokens: parentheses and atoms

A text is cut into parentheses and atoms. This file fixes the cut:

* five characters separate (`isSeparator`), two are tokens by themselves, and every other character
  (quotes, semicolons, control characters, any letter of any script) belongs to an atom;
* an atom is a longest run of such characters; whether it is a number or a symbol is not decided
  here;
* the cut is made from the right: the tokens of `c :: cs` are those of `cs` with `c` glued to their
  front (`glue`), so a statement about all texts is one induction on the characters;
* offsets count bytes, so each character moves them on by its UTF-8 length.

No text is refused: every character is a separator, a parenthesis or part of an atom.
-/

namespace MiniLisp

/-! ## 1. Characters -/

/-- The characters between tokens: space, tab, line feed, carriage return and form feed. -/
def isSeparator (c : Char) : Bool :=
  c = ' ' || c = '\t' || c = '\n' || c = '\r' || c = '\x0c'

/-- A parenthesis is a token wherever it stands. -/
def isParen (c : Char) : Bool := c = '(' || c = ')'

/-- The characters an atom is made of: all but separators and parentheses. -/
def isAtomChar (c : Char) : Bool := !isSeparator c && !isParen c

/-! ## 2. Tokens -/

/-- What a token is: one of the two parentheses, or an atom with its characters. -/
inductive Lexeme where
  | opening
  | closing
  | atom (text : String)
  deriving DecidableEq, Repr, Inhabited

namespace Lexeme

/-- The characters a token is written with. -/
def text : Lexeme → String
  | opening => "("
  | closing => ")"
  | atom text => text

@[simp] theorem toList_text_opening : opening.text.toList = ['('] := rfl

@[simp] theorem toList_text_closing : closing.text.toList = [')'] := rfl

end Lexeme

/-- A lexeme at its place in the text. -/
structure Token where
  lexeme : Lexeme
  span : Span
  deriving DecidableEq, Repr, Inhabited

namespace Token

/-- The characters the token is written with. -/
def text (t : Token) : String := t.lexeme.text

/-- The token moved `d` bytes to the right. -/
def shift (d : Nat) (t : Token) : Token := ⟨t.lexeme, t.span.shift d⟩

end Token

/-! ## 3. The cut -/

/-- The character `c`, at byte `start`, before tokens that begin behind it: a separator leaves them,
    a parenthesis is a token of its own, and any other character joins an atom that touches it or
    begins a new one. -/
def glue (c : Char) (start : Nat) (rest : List Token) : List Token :=
  let stop := start + c.utf8Size
  if isSeparator c then rest
  else if c = '(' then ⟨.opening, ⟨start, stop⟩⟩ :: rest
  else if c = ')' then ⟨.closing, ⟨start, stop⟩⟩ :: rest
  else match rest with
    | ⟨.atom text, span⟩ :: more =>
      if span.start = stop then ⟨.atom (c.toString ++ text), ⟨start, span.stop⟩⟩ :: more
      else ⟨.atom c.toString, ⟨start, stop⟩⟩ :: rest
    | _ => ⟨.atom c.toString, ⟨start, stop⟩⟩ :: rest

/-- The tokens of characters of which the first stands at byte `start`. -/
def tokensFrom (start : Nat) : List Char → List Token
  | [] => []
  | c :: cs => glue c start (tokensFrom (start + c.utf8Size) cs)

/-- The tokens of a text, in order. -/
def tokenize (text : String) : List Token := tokensFrom 0 text.toList

@[simp] theorem tokensFrom_nil (start : Nat) : tokensFrom start [] = [] := rfl

theorem tokensFrom_cons (start : Nat) (c : Char) (cs : List Char) :
    tokensFrom start (c :: cs) = glue c start (tokensFrom (start + c.utf8Size) cs) := rfl

theorem glue_separator {c : Char} (h : isSeparator c = true) (start : Nat) (rest : List Token) :
    glue c start rest = rest := by
  simp [glue, h]

@[simp] theorem glue_opening (start : Nat) (rest : List Token) :
    glue '(' start rest = ⟨.opening, ⟨start, start + 1⟩⟩ :: rest := rfl

@[simp] theorem glue_closing (start : Nat) (rest : List Token) :
    glue ')' start rest = ⟨.closing, ⟨start, start + 1⟩⟩ :: rest := rfl

theorem isAtomChar_iff_not {c : Char} :
    isAtomChar c = true ↔ isSeparator c = false ∧ c ≠ '(' ∧ c ≠ ')' := by
  simp [isAtomChar, isParen]

/-- A character separates, is one of the two parentheses, or belongs to an atom. -/
theorem char_cases (c : Char) :
    isSeparator c = true ∨ c = '(' ∨ c = ')' ∨ isAtomChar c = true := by
  by_cases hsep : isSeparator c = true
  · exact .inl hsep
  · by_cases hop : c = '('
    · exact .inr (.inl hop)
    · by_cases hcl : c = ')'
      · exact .inr (.inr (.inl hcl))
      · exact .inr (.inr (.inr (isAtomChar_iff_not.mpr ⟨Bool.eq_false_iff.mpr hsep, hop, hcl⟩)))

theorem toString_append_ofList (c : Char) (cs : List Char) :
    c.toString ++ String.ofList cs = String.ofList (c :: cs) := by
  rw [Char.toString, String.singleton_eq_ofList, ← String.ofList_append]
  rfl

/-- An atom's character that touches no atom is an atom of its own. -/
theorem glue_apart {c : Char} (h : isAtomChar c = true) {start : Nat} {rest : List Token}
    (hrest : ∀ text span more, rest = ⟨.atom text, span⟩ :: more →
      span.start ≠ start + c.utf8Size) :
    glue c start rest = ⟨.atom c.toString, ⟨start, start + c.utf8Size⟩⟩ :: rest := by
  obtain ⟨hsep, hop, hcl⟩ := isAtomChar_iff_not.mp h
  simp only [glue, hsep, hop, hcl, if_false, Bool.false_eq_true]
  split
  · rename_i text span more
    rw [if_neg (hrest text span more rfl)]
  · rfl

/-- An atom's character that touches an atom joins it. -/
theorem glue_touching {c : Char} (h : isAtomChar c = true) (start stop : Nat) (text : String)
    (more : List Token) :
    glue c start (⟨.atom text, ⟨start + c.utf8Size, stop⟩⟩ :: more) =
      ⟨.atom (c.toString ++ text), ⟨start, stop⟩⟩ :: more := by
  obtain ⟨hsep, hop, hcl⟩ := isAtomChar_iff_not.mp h
  simp [glue, hsep, hop, hcl]

/-- An atom's character before the end of the text is an atom of its own. -/
theorem glue_nil {c : Char} (h : isAtomChar c = true) (start : Nat) :
    glue c start [] = [⟨.atom c.toString, ⟨start, start + c.utf8Size⟩⟩] :=
  glue_apart h nofun

end MiniLisp
