import MiniLisp.Text.Bytes
import MiniLisp.Text.Cluster

/-!
# Backspaces

A line that comes over a pipe may hold the backspaces of the one who typed it. This file fixes what
is left of a text when they are applied, from the left to the right:

* every cluster is kept, and its size remembered; a backspace takes the last size back, and from the
  end of what is kept as many bytes. It changes nothing where no size is left;
* a text without backspaces stays as it is (`applyBackspaces_of_notMem`);
* **sizes are counted in one byte.** Of a cluster of 256 bytes or more only the bytes above a
  multiple of 256 are taken back, and a character that reaches over that border stays.
-/

namespace MiniLisp.Text

/-- The backspace. -/
def backspace : Char := '\x08'

/-- How many sizes one byte tells apart. -/
def sizeCount : Nat := 256

/-- What is kept of a text: its characters and the sizes that can be taken back, both last first. -/
structure Kept where
  chars : List Char
  sizes : List Nat
  deriving DecidableEq, Repr

namespace Kept

/-- Keeps a cluster. -/
def keep (kept : Kept) (cluster : List Char) : Kept :=
  ⟨cluster.reverse ++ kept.chars, byteLength cluster % sizeCount :: kept.sizes⟩

/-- Takes the last size back. -/
def erase (kept : Kept) : Kept :=
  match kept.sizes with
  | [] => kept
  | size :: sizes => ⟨dropBytes size kept.chars, sizes⟩

/-- Takes one cluster more: a backspace erases, and any other is kept. -/
def push (kept : Kept) (cluster : List Char) : Kept :=
  if cluster = [backspace] then kept.erase else kept.keep cluster

theorem chars_foldl_push (kept : Kept) {clusters : List (List Char)}
    (h : [backspace] ∉ clusters) :
    (clusters.foldl push kept).chars = clusters.flatten.reverse ++ kept.chars := by
  induction clusters generalizing kept with
  | nil => rfl
  | cons cluster more ih =>
    rw [List.mem_cons, not_or] at h
    rw [List.foldl_cons, ih _ h.2, push, if_neg (Ne.symm h.1)]
    simp [keep]

end Kept

/-- What is left of a text when its backspaces are applied. -/
def applyBackspaces (text : List Char) : List Char :=
  ((clusters text).foldl Kept.push ⟨[], []⟩).chars.reverse

/-- A text without backspaces stays as it is. -/
theorem applyBackspaces_of_notMem {text : List Char} (h : backspace ∉ text) :
    applyBackspaces text = text := by
  have hc : [backspace] ∉ clusters text := fun hm => h (mem_of_mem_clusters hm (by simp))
  simp [applyBackspaces, Kept.chars_foldl_push _ hc]

example : applyBackspaces "(* 2 4\x083)".toList = "(* 2 3)".toList := by decide +kernel
example : applyBackspaces "\x08e\u0301\x08\r\n\x08x".toList = ['x'] := by decide +kernel

end MiniLisp.Text
