import MiniLisp.Node

/-!
# Bare nodes: what a node is, apart from its places

The same form may be read at two places of a text, or from two texts. This file fixes what the two
have in common:

* `Node.induction`: what holds of a list as soon as it holds of its items, and of all other nodes,
  holds of every node;
* `Node.bare`: the node with every place taken away, its own and those of all nodes inside;
* **`Node.text_bare`**: a node is written alike wherever it and its items stand.
-/

namespace MiniLisp

variable {ω : Type}

namespace Node

/-! ## 1. Induction -/

/-- A statement about nodes goes from the items of a list to the list. -/
@[elab_as_elim, induction_eliminator]
theorem induction {P : Node ω → Prop} (symbol : ∀ name span, P (.symbol name span))
    (number : ∀ value span, P (.number value span))
    (list : ∀ items span, (∀ n ∈ items, P n) → P (.list items span))
    (procedure : ∀ p span, P (.procedure p span)) : ∀ n, P n
  | .symbol name span => symbol name span
  | .number value span => number value span
  | .list items span =>
    list items span fun n _ => induction symbol number list procedure n
  | .procedure p span => procedure p span

/-! ## 2. Nodes without places -/

mutual

/-- The node with no places in it. -/
def bare : Node ω → Node ω
  | symbol name _ => symbol name Span.nowhere
  | number x _ => number x Span.nowhere
  | list items _ => list (bares items) Span.nowhere
  | procedure p _ => procedure p Span.nowhere

/-- Nodes with no places in them. -/
def bares : List (Node ω) → List (Node ω)
  | [] => []
  | n :: rest => n.bare :: bares rest

end

@[simp] theorem bares_eq_map (items : List (Node ω)) : bares items = items.map bare := by
  induction items with
  | nil => rfl
  | cons n rest ih => rw [bares, ih, List.map_cons]

/-- **A node is written alike wherever it and its items stand.** -/
@[simp] theorem text_bare (n : Node ω) : n.bare.text = n.text := by
  induction n with
  | symbol name span => rfl
  | number x span => rfl
  | list items span ih =>
    rw [bare, text, text, texts_eq_map, texts_eq_map, bares_eq_map, List.map_map]
    have hmap : items.map (text ∘ bare) = items.map text := List.map_congr_left ih
    rw [hmap]
  | procedure p span => rfl

/-- Nodes that differ in places alone are written alike. -/
theorem text_eq_of_bare_eq {m n : Node ω} (h : m.bare = n.bare) : m.text = n.text := by
  rw [← text_bare m, h, text_bare]

end Node

end MiniLisp
