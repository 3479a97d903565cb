import MiniLisp.Proofs.Pairs

/-!
# Highlighting: the pair under the cursor is a list

What the highlighter makes of a line can be read off its output. This file fixes what that is, for a line
that the reader takes:

* `Highlights`: the line comes out with two parentheses in the colours of a pair, and otherwise as it is.
  **The output tells which two they are** (`Highlights.unique`): a colour begins with a character that the
  line does not have at that place (`eq_of_marked`);
* `highlights_of_active`, `highlight_of_inactive`: where nothing is left over, the pair under the cursor is
  coloured and nothing else is;
* `highlights_iff_active`: so what comes out coloured is the pair under the cursor;
* **`highlighted_pair_is_list`**: that pair is a list of the line, at any depth.
-/

namespace MiniLisp

variable {ω : Type}

/-! ## 1. What comes out -/

/-- The line comes out with the parentheses at the two places in the colours of a pair, and with everything
    else as it is. -/
def Highlights (line : String) (cursor a b : Nat) : Prop :=
  ∃ before inside after, line.toList = before ++ '(' :: (inside ++ ')' :: after) ∧
    byteLength before = a ∧ a + 1 + byteLength inside = b ∧
    (highlight line cursor).toList =
      before ++ (Colour.boldBlue.paint '(' ++ (inside ++ (Colour.blue.paint ')' ++ after)))

/-- What is marked in two ways at the same character is marked at the same place. -/
theorem eq_of_marked {c mark : Char} (hne : mark ≠ c) {as bs xs ys zs ws : List Char}
    (hplain : as ++ c :: xs = bs ++ c :: ys) (hmarked : as ++ mark :: zs = bs ++ mark :: ws) :
    as = bs := by
  induction as generalizing bs with
  | nil =>
    cases bs with
    | nil => rfl
    | cons b bs => exact absurd ((List.cons.inj hmarked).1.trans (List.cons.inj hplain).1.symm) hne
  | cons a as ih =>
    cases bs with
    | nil => exact absurd ((List.cons.inj hmarked).1.symm.trans (List.cons.inj hplain).1) hne
    | cons b bs =>
      rw [List.cons_append, List.cons_append] at hplain hmarked
      obtain ⟨rfl, hrest⟩ := List.cons.inj hplain
      rw [ih hrest (List.cons.inj hmarked).2]

namespace Highlights

variable {line : String} {cursor a b : Nat}

/-- What is coloured does not come out as it is. -/
theorem highlight_ne (h : Highlights line cursor a b) : highlight line cursor ≠ line := by
  obtain ⟨before, inside, after, hline, _, _, hout⟩ := h
  intro heq
  rw [heq, hline, List.append_right_inj] at hout
  exact absurd (List.cons.inj hout).1 (by decide)

/-- **A line comes out with one pair at most.** -/
theorem unique (h : Highlights line cursor a b) {a' b' : Nat} (h' : Highlights line cursor a' b') :
    a = a' ∧ b = b' := by
  obtain ⟨before, inside, after, hline, rfl, rfl, hout⟩ := h
  obtain ⟨before', inside', after', hline', rfl, rfl, hout'⟩ := h'
  rw [hline] at hline'
  rw [hout] at hout'
  obtain rfl := eq_of_marked (by decide) hline' hout'
  rw [List.append_right_inj, List.cons_inj_right] at hline'
  rw [List.append_right_inj, List.append_right_inj] at hout'
  obtain rfl := eq_of_marked (by decide) hline' hout'
  exact ⟨rfl, rfl⟩

end Highlights

/-- Without colours nothing changes. -/
theorem paintFrom_of_none {colours : Nat → Option Colour} {position : Nat} {cs : List Char}
    (h : ∀ i, position ≤ i → i < position + byteLength cs → colours i = none) :
    paintFrom colours position cs = cs := by
  induction cs generalizing position with
  | nil => rfl
  | cons c cs ih =>
    have hsize := c.utf8Size_pos
    rw [byteLength_cons] at h
    have hfirst : colours position = none := h position (Nat.le_refl _) (by omega)
    rw [paintFrom_cons, hfirst, ih fun i hle hlt => h i (by omega) (by omega)]
    rfl

section Line

variable {line : String} {cursor : Nat}

/-- A line without pair under the cursor and with nothing left over comes out as it is. -/
theorem highlight_of_inactive (hall : (pairing line.toList).unmatched = [])
    (hnone : (pairing line.toList).active? cursor = none) : highlight line cursor = line := by
  rw [← String.toList_inj, toList_highlight]
  refine paintFrom_of_none fun i _ _ => ?_
  simp only [colourAt?, Pairing.colour?, hall, hnone, List.contains_nil]
  rfl

/-- Where two parentheses are the pair under the cursor and nothing is left over, they are coloured and
    nothing else is. -/
theorem highlights_of_active {before inside after : List Char}
    (hline : line.toList = before ++ '(' :: (inside ++ ')' :: after))
    (hall : (pairing line.toList).unmatched = [])
    (hsome : (pairing line.toList).active? cursor =
      some (byteLength before, byteLength before + 1 + byteLength inside)) :
    Highlights line cursor (byteLength before) (byteLength before + 1 + byteLength inside) := by
  refine ⟨before, inside, after, hline, rfl, rfl, ?_⟩
  have hcolour : ∀ i, colourAt? line cursor i =
      if i = byteLength before then some .boldBlue
      else if i = byteLength before + 1 + byteLength inside then some .blue else none := by
    intro i
    simp only [colourAt?, Pairing.colour?, hall, hsome, List.contains_nil]
    rfl
  -- everywhere but at the two places there is no colour
  have hplain : ∀ cs position, (∀ i, position ≤ i → i < position + byteLength cs →
      i ≠ byteLength before ∧ i ≠ byteLength before + 1 + byteLength inside) →
      paintFrom (colourAt? line cursor) position cs = cs := by
    intro cs position h
    refine paintFrom_of_none fun i hle hlt => ?_
    obtain ⟨hopening, hclosing⟩ := h i hle hlt
    rw [hcolour, if_neg hopening, if_neg hclosing]
  have hopening : colourAt? line cursor (byteLength before) = some .boldBlue := by
    rw [hcolour, if_pos rfl]
  have hclosing : colourAt? line cursor (byteLength before + 1 + byteLength inside) = some .blue := by
    rw [hcolour, if_neg (by omega), if_pos rfl]
  have hsize : '('.utf8Size = 1 ∧ ')'.utf8Size = 1 := ⟨rfl, rfl⟩
  rw [toList_highlight, hline, paintFrom_append, Nat.zero_add, paintFrom_cons, hopening, hsize.1,
    paintFrom_append, paintFrom_cons, hclosing, hsize.2]
  rw [hplain before 0 fun i _ _ => by omega, hplain inside _ fun i _ _ => by omega,
    hplain after _ fun i _ _ => by omega]
  rfl

end Line

/-! ## 2. The highlighted pair -/

/-- A list of a line stands between its parentheses. -/
theorem Node.Stands.exists_parens {cs part : List Char} {items : List (Node ω)} {a b : Nat}
    (h : (Node.list items ⟨a, b + 1⟩).Stands 0 cs part) :
    ∃ before inside after, cs = before ++ '(' :: (inside ++ ')' :: after) ∧ byteLength before = a ∧
      a + 1 + byteLength inside = b := by
  obtain ⟨before, after, rfl, hfills⟩ := h
  have hspan := hfills.span_eq
  obtain ⟨inside, rfl, _⟩ := hfills.exists_inside
  rw [add_byteLength_parens, Nat.zero_add] at hspan
  obtain ⟨rfl, hstop⟩ := Span.mk.inj hspan
  refine ⟨before, inside, after, ?_, rfl, (Nat.succ.inj hstop).symm⟩
  simp only [List.cons_append, List.append_assoc, List.nil_append]

section Reading

variable {line : String} {forms : List (Node ω)}

/-- The places of a pair are those of two parentheses. -/
theorem exists_parens_of_mem_pairs (h : readAll (tokenize line) = .ok forms) {a b : Nat}
    (hpair : (a, b) ∈ (pairing line.toList).pairs) :
    ∃ before inside after, line.toList = before ++ '(' :: (inside ++ ')' :: after) ∧
      byteLength before = a ∧ a + 1 + byteLength inside = b := by
  obtain ⟨form, hform, items, hinside⟩ := (mem_pairs_pairing_iff h).mp hpair
  obtain ⟨whole, hwhole⟩ := readAll_stands h form hform
  obtain ⟨part, hpart⟩ := hinside.stands hwhole
  exact hpart.exists_parens

/-- **A line that can be read comes out with the pair under the cursor, and with no other.** -/
theorem highlights_iff_active (h : readAll (tokenize line) = .ok forms) {cursor a b : Nat} :
    Highlights line cursor a b ↔ (pairing line.toList).active? cursor = some (a, b) := by
  have hall : (pairing line.toList).unmatched = [] := by rw [pairing_of_readAll h]
  have hcoloured : ∀ a b, (pairing line.toList).active? cursor = some (a, b) →
      Highlights line cursor a b := by
    intro a b hsome
    obtain ⟨before, inside, after, hline, rfl, rfl⟩ :=
      exists_parens_of_mem_pairs h (Pairing.mem_of_active? hsome)
    exact highlights_of_active hline hall hsome
  refine ⟨fun hcolours => ?_, hcoloured a b⟩
  cases hfound : (pairing line.toList).active? cursor with
  | none => exact absurd (highlight_of_inactive hall hfound) hcolours.highlight_ne
  | some pair =>
    obtain ⟨a', b'⟩ := pair
    obtain ⟨rfl, rfl⟩ := hcolours.unique (hcoloured a' b' hfound)
    rfl

/-- Where the cursor is on no parenthesis, no pair is under it. -/
theorem active?_eq_none (h : readAll (tokenize line) = .ok forms) {place : Nat}
    (hplain : ∀ before c after, line.toList = before ++ c :: after → byteLength before = place →
      isParen c = false) : (pairing line.toList).active? (place + 1) = none := by
  cases hfound : (pairing line.toList).active? (place + 1) with
  | none => rfl
  | some pair =>
    obtain ⟨a, b⟩ := pair
    obtain ⟨hpair, hplace⟩ :=
      (Pairing.active?_eq_some (nodup_places_pairingFrom .nil nofun line.toList).1).mp hfound
    obtain ⟨before, inside, after, hline, rfl, rfl⟩ := exists_parens_of_mem_pairs h hpair
    rcases hplace with hplace | hplace
    · exact absurd (hplain before '(' _ hline hplace.symm) (by decide)
    · have hclosing : line.toList = (before ++ '(' :: inside) ++ ')' :: after := by
        rw [hline, List.append_assoc]
        rfl
      have hlength : byteLength (before ++ '(' :: inside) = place := by
        rw [byteLength_append, byteLength_cons, hplace, Nat.add_assoc]
        rfl
      exact absurd (hplain _ ')' after hclosing hlength) (by decide)

end Reading

/-- **The pair that is highlighted is a list of the line**, wherever the line can be read: the parentheses of
    the list, at any depth, of which one is under the cursor. Where the cursor is on no parenthesis the line
    comes out as it is, and no parenthesis comes out red. -/
theorem highlighted_pair_is_list {line : String} {forms : List (Node ω)}
    (h : readAll (tokenize line) = .ok forms) (place : Nat) :
    (∀ a b, Highlights line (place + 1) a b ↔
      (∃ form ∈ forms, ∃ items, (Node.list items ⟨a, b + 1⟩).Inside form) ∧ (place = a ∨ place = b)) ∧
    (∀ i, ¬ Reddens line (place + 1) i) ∧
    ((∀ before c after, line.toList = before ++ c :: after → byteLength before = place →
        isParen c = false) →
      highlight line (place + 1) = line) := by
  have hall : (pairing line.toList).unmatched = [] := by rw [pairing_of_readAll h]
  refine ⟨fun a b => ?lists, fun i hred => ?red,
    fun hplain => highlight_of_inactive hall (active?_eq_none h hplain)⟩
  case lists =>
    rw [highlights_iff_active h, ← mem_pairs_pairing_iff h]
    exact Pairing.active?_eq_some (nodup_places_pairingFrom .nil nofun line.toList).1
  case red =>
    rw [reddens_iff, hall] at hred
    cases hred

/-- The cursor behind the inner of two closing parentheses, and behind a blank. -/
theorem highlighted_pair_is_list_accented :
    let inner : Node Empty := .list [.symbol "é" ⟨4, 6⟩] ⟨3, 7⟩
    let form : Node Empty := .list [.symbol "f" ⟨1, 2⟩, inner] ⟨0, 8⟩
    readAll (tokenize "(f (é))") = .ok [form] ∧ Highlights "(f (é))" 7 3 6 ∧
      ¬ Highlights "(f (é))" 7 0 7 ∧ ¬ Reddens "(f (é))" 3 7 := by
  intro inner form
  have hread : readAll (tokenize "(f (é))") = .ok [form] := rfl
  have hinside : inner.Inside form := .item ⟨0, 8⟩ (List.mem_cons_of_mem _ List.mem_cons_self) .self
  obtain ⟨hlists, _, _⟩ := highlighted_pair_is_list hread 6
  refine ⟨hread, (hlists 3 6).mpr ⟨⟨form, List.mem_cons_self, _, hinside⟩, .inr rfl⟩,
    fun houter => ?_, (highlighted_pair_is_list hread 2).2.1 7⟩
  exact absurd ((hlists 0 7).mp houter).2 (by decide)

end MiniLisp
