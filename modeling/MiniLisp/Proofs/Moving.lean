import MiniLisp.Proofs.Bare
import MiniLisp.Proofs.Spelling

/-!
# Moving: the same characters at another place

The same characters may stand at the beginning of a text or somewhere inside of it. This file fixes
what this changes, which is places alone:

* **`tokensFrom_add`**: the tokens of characters that begin `d` bytes further to the right are the
  same tokens, `d` bytes further to the right;
* `Node.shift`: the node with every place moved, its own and those of all nodes inside;
* **`readAll_shift`**: tokens that moved are read as the forms that moved with them, and where they cannot
  be read the error moved too. The same of what the reader holds after each token (`Nest.push_shift`);
* `Spells.shift`, `Spells.of_shift`: so moved tokens spell moved forms, and no others.
-/

namespace MiniLisp

variable {ω : Type}

/-! ## 1. Tokens -/

@[simp] theorem Token.shift_mk (d : Nat) (l : Lexeme) (s : Span) :
    (⟨l, s⟩ : Token).shift d = ⟨l, s.shift d⟩ := rfl

/-- A character joins tokens that moved with it as it joined them before. -/
theorem glue_shift (c : Char) (start d : Nat) (ts : List Token) :
    glue c (start + d) (ts.map (·.shift d)) = (glue c start ts).map (·.shift d) := by
  have hplace : ∀ size, (⟨start + d, start + d + size⟩ : Span) = Span.shift d ⟨start, start + size⟩ :=
    fun size => by rw [Span.shift, Nat.add_right_comm]
  obtain hsep | rfl | rfl | hatom := char_cases c
  · rw [glue_separator hsep, glue_separator hsep]
  · rw [glue_opening, glue_opening, List.map_cons, Token.shift_mk, hplace]
  · rw [glue_closing, glue_closing, List.map_cons, Token.shift_mk, hplace]
  by_cases htouch : ∃ text stop more, ts = ⟨.atom text, ⟨start + c.utf8Size, stop⟩⟩ :: more
  · obtain ⟨text, stop, more, rfl⟩ := htouch
    have hnext : start + c.utf8Size + d = start + d + c.utf8Size := Nat.add_right_comm _ _ _
    rw [glue_touching hatom, List.map_cons, List.map_cons, Token.shift_mk, Token.shift_mk, Span.shift,
      hnext, glue_touching hatom]
    rfl
  · have hne : ∀ text span more, ts = ⟨.atom text, span⟩ :: more →
        span.start ≠ start + c.utf8Size := by
      rintro text ⟨first, stop⟩ more rfl rfl
      exact htouch ⟨text, stop, more, rfl⟩
    have hne' : ∀ text span more, ts.map (·.shift d) = ⟨.atom text, span⟩ :: more →
        span.start ≠ start + d + c.utf8Size := by
      intro text span more hts
      obtain ⟨⟨l, s⟩, us, rfl, ht, rfl⟩ := List.map_eq_cons_iff.mp hts
      cases ht
      have := hne text s us rfl
      show s.start + d ≠ start + d + c.utf8Size
      omega
    rw [glue_apart hatom hne, glue_apart hatom hne', List.map_cons, Token.shift_mk, hplace]

/-- **Characters further to the right have the same tokens, further to the right.** -/
theorem tokensFrom_add (start d : Nat) (cs : List Char) :
    tokensFrom (start + d) cs = (tokensFrom start cs).map (·.shift d) := by
  induction cs generalizing start with
  | nil => rfl
  | cons c cs ih =>
    rw [tokensFrom_cons, tokensFrom_cons, Nat.add_right_comm, ih, glue_shift]

/-! ## 2. Nodes -/

namespace Node

mutual

/-- The node with all its places moved `d` bytes to the right. -/
def shift (d : Nat) : Node ω → Node ω
  | symbol name span => symbol name (span.shift d)
  | number x span => number x (span.shift d)
  | list items span => list (shifts d items) (span.shift d)
  | procedure p span => procedure p (span.shift d)

/-- Nodes with all their places moved. -/
def shifts (d : Nat) : List (Node ω) → List (Node ω)
  | [] => []
  | n :: rest => n.shift d :: shifts d rest

end

@[simp] theorem shifts_eq_map (d : Nat) (items : List (Node ω)) :
    shifts d items = items.map (shift d) := by
  induction items with
  | nil => rfl
  | cons n rest ih => rw [shifts, ih, List.map_cons]

theorem shift_list (d : Nat) (items : List (Node ω)) (span : Span) :
    (list items span).shift d = list (items.map (shift d)) (span.shift d) := by
  rw [shift, shifts_eq_map]

theorem shift_ofAtom (d : Nat) (text : String) (span : Span) :
    (ofAtom text span : Node ω).shift d = ofAtom text (span.shift d) := by
  unfold ofAtom
  split
  · rw [shift]
  · rw [shift]

/-- A node is the same but for places when it is moved. -/
@[simp] theorem bare_shift (d : Nat) (n : Node ω) : (n.shift d).bare = n.bare := by
  induction n with
  | symbol name span => rfl
  | number x span => rfl
  | list items span ih =>
    rw [shift_list, bare, bare, bares_eq_map, bares_eq_map, List.map_map]
    exact congrArg (list · Span.nowhere) (List.map_congr_left ih)
  | procedure p span => rfl

end Node

/-! ## 3. Reading -/

/-- A reading error with the span it blames moved, where it blames one. -/
def ReadError.shift (d : Nat) : ReadError → ReadError
  | invalidToken span => .invalidToken (span.shift d)
  | unexpectedClose span => .unexpectedClose (span.shift d)
  | unexpectedEnd expected => .unexpectedEnd expected

/-- An open list with all its places moved. -/
def OpenList.shift (d : Nat) (l : OpenList ω) : OpenList ω :=
  ⟨l.opening.shift d, l.items.map (Node.shift d)⟩

namespace Nest

/-- What has been read, with all its places moved. -/
def shift (d : Nat) (nest : Nest ω) : Nest ω :=
  ⟨nest.lists.map (OpenList.shift d), nest.forms.map (Node.shift d)⟩

theorem shift_add (d : Nat) (nest : Nest ω) (n : Node ω) :
    (nest.add n).shift d = (nest.shift d).add (n.shift d) := by
  obtain ⟨lists, forms⟩ := nest
  cases lists <;> rfl

/-- **A moved token does to what has been moved what it did before.** -/
theorem push_shift (d : Nat) (nest : Nest ω) (t : Token) :
    (nest.shift d).push (t.shift d) = ((nest.push t).map (shift d)).mapError (ReadError.shift d) := by
  obtain ⟨lexeme, s⟩ := t
  cases lexeme with
  | opening => rfl
  | atom text =>
    rw [Token.shift_mk, push_atom, push_atom, ← Node.shift_ofAtom, ← shift_add]
    rfl
  | closing =>
    obtain ⟨lists, forms⟩ := nest
    cases lists with
    | nil => rfl
    | cons inner outer =>
      have hlist : (Node.list inner.items.reverse (inner.opening.merge s)).shift d =
          .list (inner.shift d).items.reverse ((inner.shift d).opening.merge (s.shift d)) := by
        rw [Node.shift_list, Span.shift_merge, List.map_reverse]
        rfl
      rw [push_closing_cons]
      show _ = Except.ok (Nest.shift d (add _ ⟨outer, forms⟩))
      rw [shift_add, hlist]
      rfl

theorem pushAll_shift (d : Nat) (nest : Nest ω) (ts : List Token) :
    (nest.shift d).pushAll (ts.map (·.shift d)) =
      ((nest.pushAll ts).map (shift d)).mapError (ReadError.shift d) := by
  induction ts generalizing nest with
  | nil => rfl
  | cons t ts ih =>
    rw [List.map_cons, pushAll, pushAll, push_shift]
    cases nest.push t with
    | error cause => rfl
    | ok next => exact ih next

theorem finish_shift (d : Nat) (nest : Nest ω) :
    (nest.shift d).finish =
      (nest.finish.map (·.map (Node.shift d))).mapError (ReadError.shift d) := by
  obtain ⟨lists, forms⟩ := nest
  cases lists with
  | nil => exact congrArg Except.ok (List.map_reverse ..).symm
  | cons inner outer => rfl

end Nest

/-- **Moved tokens are read as moved forms**, or fail with an error that moved with them. -/
theorem readAll_shift (d : Nat) (ts : List Token) :
    (readAll (ts.map (·.shift d)) : Except ReadError (List (Node ω))) =
      ((readAll ts).map (·.map (Node.shift d))).mapError (ReadError.shift d) := by
  have hpush := Nest.pushAll_shift d (Nest.empty : Nest ω) ts
  have hempty : (Nest.empty : Nest ω).shift d = Nest.empty := rfl
  rw [readAll, readAll, ← hempty, hpush, hempty]
  cases (Nest.empty : Nest ω).pushAll ts with
  | error cause => rfl
  | ok nest => exact nest.finish_shift d

/-- Moved tokens spell moved forms. -/
theorem Spells.shift (d : Nat) {forms : List (Node ω)} {ts : List Token} (h : Spells forms ts) :
    Spells (forms.map (Node.shift d)) (ts.map (·.shift d)) := by
  rw [← readAll_eq_ok_iff, readAll_shift, readAll_of_spells h]
  rfl

/-- **Forms spelled by moved tokens are moved forms**, of the tokens before they were moved. -/
theorem Spells.of_shift {d : Nat} {forms : List (Node ω)} {ts : List Token}
    (h : Spells forms (ts.map (·.shift d))) :
    ∃ before, Spells before ts ∧ before.map (Node.shift d) = forms := by
  have hread := readAll_of_spells h
  rw [readAll_shift] at hread
  cases hts : (readAll ts : Except ReadError (List (Node ω))) with
  | error cause =>
    rw [hts] at hread
    cases hread
  | ok before =>
    rw [hts] at hread
    exact ⟨before, readAll_eq_ok_iff.mp hts, Except.ok.inj hread⟩

end MiniLisp
