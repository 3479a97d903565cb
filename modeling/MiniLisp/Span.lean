/-!
# Spans: where in a text something stands

Every token, every node of a tree and nearly every error carries the stretch of text it comes from.
This file fixes that stretch:

* a span is a pair of byte offsets into the UTF-8 form of the text, `start` inclusive and `stop`
  exclusive; nothing forces `start ≤ stop`, since a host may build spans by hand;
* a list reaches from its opening to its closing parenthesis, so its span is the `merge` of theirs;
* what stands in no text (a built-in value, a value quoted inside an error) has the span
  `Span.nowhere`.
-/

namespace MiniLisp

/-- A stretch of text, as byte offsets: from `start` up to, but without, `stop`. -/
structure Span where
  start : Nat
  stop : Nat
  deriving DecidableEq, Repr, Inhabited

namespace Span

/-- The span of what stands in no text. -/
def nowhere : Span := ⟨0, 0⟩

/-- The least span that covers both. -/
def merge (a b : Span) : Span := ⟨min a.start b.start, max a.stop b.stop⟩

/-- How many bytes the span covers; none where it runs backwards. -/
def length (a : Span) : Nat := a.stop - a.start

/-- The span moved `d` bytes to the right. -/
def shift (d : Nat) (a : Span) : Span := ⟨a.start + d, a.stop + d⟩

/-- The two offsets with two dots between them. -/
def text (a : Span) : String := toString a.start ++ ".." ++ toString a.stop

/-- Where one span begins first and the other ends last, both are covered from there to there. -/
theorem merge_of_le {a b : Span} (hstart : a.start ≤ b.start) (hstop : a.stop ≤ b.stop) :
    a.merge b = ⟨a.start, b.stop⟩ := by
  rw [merge, Nat.min_eq_left hstart, Nat.max_eq_right hstop]

/-- Moving two spans alike moves what covers them alike. -/
theorem shift_merge (d : Nat) (a b : Span) :
    (a.merge b).shift d = (a.shift d).merge (b.shift d) := by
  simp [merge, shift, Nat.add_min_add_right, Nat.add_max_add_right]

end Span

end MiniLisp
