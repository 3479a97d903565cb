import Mathlib.Data.List.Nodup
import Mathlib.Data.List.Pairwise
import MiniLisp.Proofs.Agreement

/-!
# Pairs: partners among parentheses are lists

The highlighter pairs the characters of a line with a stack of places; the reader makes lists of tokens. On a
line that can be read the two find the same. This file fixes how:

* `nodup_places_pairingFrom`: no place is in two pairs, so the pair under the cursor is the one that the
  place of the cursor is in (`Pairing.active?_eq_some`);
* `pairingTokens`: the pairs of tokens, which are those of the characters (`pairingFrom_eq_pairingTokens`);
* `Node.pairs`: the places of the parentheses of the lists in a node. **Tokens that spell forms have the
  pairs of the forms**, in front of those of what follows (`pairingTokens_of_spells`);
* **`pairing_of_readAll`**: a line that can be read has the pairs of its forms, and leaves no place over.
-/

namespace MiniLisp

variable {ω : Type}

/-! ## 1. One pair for each place -/

theorem pairingFrom_closing_nil (position : Nat) (cs : List Char) :
    pairingFrom [] position (')' :: cs) =
      ⟨(pairingFrom [] (position + 1) cs).pairs,
        position :: (pairingFrom [] (position + 1) cs).unmatched⟩ := rfl

theorem pairingFrom_closing_cons (opening : Nat) (outer : List Nat) (position : Nat) (cs : List Char) :
    pairingFrom (opening :: outer) position (')' :: cs) =
      ⟨(opening, position) :: (pairingFrom outer (position + 1) cs).pairs,
        (pairingFrom outer (position + 1) cs).unmatched⟩ := rfl

/-- The places that are in pairs. -/
def Pairing.places (p : Pairing) : List Nat := p.pairs.flatMap fun pair => [pair.1, pair.2]

/-- No place is in two pairs: open places are in one each, and all others come later. -/
theorem nodup_places_pairingFrom {stack : List Nat} (hstack : stack.Nodup) {position : Nat}
    (hbefore : ∀ i ∈ stack, i < position) (cs : List Char) :
    (pairingFrom stack position cs).places.Nodup ∧
      ∀ i ∈ (pairingFrom stack position cs).places, i ∈ stack ∨ position ≤ i := by
  induction cs generalizing stack position with
  | nil => exact ⟨.nil, nofun⟩
  | cons c cs ih =>
    rcases paren_cases c with hc | rfl | rfl
    · rw [pairingFrom_other hc]
      obtain ⟨hnodup, hplaces⟩ := ih hstack fun i hi => Nat.lt_add_right c.utf8Size (hbefore i hi)
      exact ⟨hnodup, fun i hi => (hplaces i hi).imp_right (Nat.le_trans (Nat.le_add_right _ _))⟩
    · have hnew : position ∉ stack := fun hmem => Nat.lt_irrefl position (hbefore position hmem)
      have hbefore' : ∀ i ∈ position :: stack, i < position + 1 :=
        List.forall_mem_cons.mpr ⟨Nat.lt_succ_self _, fun i hi => Nat.lt_succ_of_lt (hbefore i hi)⟩
      obtain ⟨hnodup, hplaces⟩ := ih (List.nodup_cons.mpr ⟨hnew, hstack⟩) hbefore'
      refine ⟨hnodup, fun i hi => ?_⟩
      rcases hplaces i hi with hmem | hle
      · rcases List.mem_cons.mp hmem with rfl | hmem
        · exact .inr (Nat.le_refl _)
        · exact .inl hmem
      · exact .inr (Nat.le_of_succ_le hle)
    · cases stack with
      | nil =>
        have hnone : ∀ i ∈ ([] : List Nat), i < position + 1 := nofun
        obtain ⟨hnodup, hplaces⟩ := ih .nil hnone
        exact ⟨hnodup, fun i hi => (hplaces i hi).imp_right Nat.le_of_succ_le⟩
      | cons opening outer =>
        obtain ⟨hfresh, houter⟩ := List.nodup_cons.mp hstack
        obtain ⟨hopening, hbefore⟩ := List.forall_mem_cons.mp hbefore
        obtain ⟨hnodup, hplaces⟩ := ih houter fun i hi => Nat.lt_succ_of_lt (hbefore i hi)
        -- neither partner comes up again: the one is taken from the stack, the other lies behind
        have hgone : ∀ i, i ∉ outer → i ≤ position →
            i ∉ (pairingFrom outer (position + 1) cs).places := fun i hout hle hmem =>
          (hplaces i hmem).elim hout (Nat.not_le_of_lt (Nat.lt_succ_of_le hle))
        have hfirst := hgone opening hfresh (Nat.le_of_lt hopening)
        have hsecond := hgone position (fun hmem => Nat.lt_irrefl position (hbefore position hmem))
          (Nat.le_refl position)
        show (opening :: position :: (pairingFrom outer (position + 1) cs).places).Nodup ∧
          ∀ i ∈ opening :: position :: (pairingFrom outer (position + 1) cs).places, _
        refine ⟨List.nodup_cons.mpr ⟨?_, List.nodup_cons.mpr ⟨hsecond, hnodup⟩⟩, fun i hi => ?_⟩
        · rw [List.mem_cons, not_or]
          exact ⟨Nat.ne_of_lt hopening, hfirst⟩
        · rcases List.mem_cons.mp hi with rfl | hi
          · exact .inl List.mem_cons_self
          · rcases List.mem_cons.mp hi with rfl | hi
            · exact .inr (Nat.le_refl _)
            · exact (hplaces i hi).imp (List.mem_cons_of_mem opening) Nat.le_of_succ_le

/-- Two pairs that share a place are the same pair. -/
theorem Pairing.eq_of_mem_places {p : Pairing} (h : p.places.Nodup) {x y : Nat × Nat} (hx : x ∈ p.pairs)
    (hy : y ∈ p.pairs) {place : Nat} (hpx : place ∈ [x.1, x.2]) (hpy : place ∈ [y.1, y.2]) : x = y := by
  have hapart : p.pairs.Pairwise fun x y => List.Disjoint [x.1, x.2] [y.1, y.2] :=
    (List.nodup_flatMap.mp h).2
  have : Std.Symm fun x y : Nat × Nat => List.Disjoint [x.1, x.2] [y.1, y.2] :=
    ⟨fun _ _ h _ hx hy => h hy hx⟩
  exact Classical.byContradiction fun hne => hapart.forall hx hy hne hpx hpy

/-- The pair under the cursor is one of the pairs. -/
theorem Pairing.mem_of_active? {p : Pairing} {cursor : Nat} {pair : Nat × Nat}
    (h : p.active? cursor = some pair) : pair ∈ p.pairs := by
  cases cursor with
  | zero => cases h
  | succ place => exact List.mem_of_find?_eq_some h

/-- **The pair under the cursor is the one that the place of the cursor is in.** -/
theorem Pairing.active?_eq_some {p : Pairing} (h : p.places.Nodup) {place a b : Nat} :
    p.active? (place + 1) = some (a, b) ↔ (a, b) ∈ p.pairs ∧ (place = a ∨ place = b) := by
  have hfound : ∀ x : Nat × Nat, (decide (x.1 = place) || decide (x.2 = place)) = true ↔
      place ∈ [x.1, x.2] := by
    intro x
    simp only [Bool.or_eq_true, decide_eq_true_eq, List.mem_cons, List.not_mem_nil, or_false]
    exact or_congr eq_comm eq_comm
  show p.pairs.find? (fun pair => pair.1 = place || pair.2 = place) = some (a, b) ↔ _
  constructor
  · intro hactive
    have hmem := List.mem_of_find?_eq_some hactive
    have htest := List.find?_some hactive
    have hplace := (hfound (a, b)).mp htest
    exact ⟨hmem, by simpa using hplace⟩
  · rintro ⟨hmem, hplace⟩
    have hplace : place ∈ [a, b] := by simpa using hplace
    cases hactive : p.pairs.find? (fun pair => pair.1 = place || pair.2 = place) with
    | none =>
      have hnone := List.find?_eq_none.mp hactive (a, b) hmem
      exact absurd ((hfound (a, b)).mpr hplace) hnone
    | some x =>
      have htest := List.find?_some hactive
      have hmem' := List.mem_of_find?_eq_some hactive
      rw [eq_of_mem_places h hmem' hmem ((hfound x).mp htest) hplace]

/-! ## 2. Pairs of tokens -/

/-- The partners among tokens, behind open parentheses at the places `stack`. -/
def pairingTokens (stack : List Nat) : List Token → Pairing
  | [] => ⟨[], []⟩
  | t :: ts =>
    match t.lexeme with
    | .opening => pairingTokens (t.span.start :: stack) ts
    | .closing =>
      match stack with
      | [] =>
        let rest := pairingTokens [] ts
        ⟨rest.pairs, t.span.start :: rest.unmatched⟩
      | opening :: outer =>
        let rest := pairingTokens outer ts
        ⟨(opening, t.span.start) :: rest.pairs, rest.unmatched⟩
    | .atom _ => pairingTokens stack ts

/-- A character that belongs to an atom is in no pair. -/
theorem pairingTokens_glue {c : Char} (h : isAtomChar c = true) (stack : List Nat) (start : Nat)
    (rest : List Token) : pairingTokens stack (glue c start rest) = pairingTokens stack rest := by
  obtain ⟨hsep, hop, hcl⟩ := isAtomChar_iff_not.mp h
  simp only [glue, hsep, hop, hcl, if_false, Bool.false_eq_true]
  split
  · split <;> rfl
  · rfl

/-- **Characters and tokens have the same pairs.** -/
theorem pairingFrom_eq_pairingTokens (stack : List Nat) (start : Nat) (cs : List Char) :
    pairingFrom stack start cs = pairingTokens stack (tokensFrom start cs) := by
  induction cs generalizing stack start with
  | nil => rfl
  | cons c cs ih =>
    rw [tokensFrom_cons]
    rcases char_cases c with hsep | rfl | rfl | hatom
    · rw [pairingFrom_other (isParen_of_separator hsep), glue_separator hsep, ih]
    · rw [pairingFrom_opening, glue_opening, ih]
      rfl
    · rw [glue_closing]
      cases stack with
      | nil =>
        rw [pairingFrom_closing_nil, ih]
        rfl
      | cons opening outer =>
        rw [pairingFrom_closing_cons, ih]
        rfl
    · rw [pairingFrom_other (isParen_of_atomChar hatom), pairingTokens_glue hatom, ih]

/-! ## 3. Pairs of lists -/

namespace Node

mutual

/-- The places of the parentheses of a list and of all lists in it, inner ones first. -/
def pairs : Node ω → List (Nat × Nat)
  | list items span => pairsAll items ++ [(span.start, span.stop - 1)]
  | _ => []

/-- The places of the parentheses of all lists in some nodes. -/
def pairsAll : List (Node ω) → List (Nat × Nat)
  | [] => []
  | n :: rest => n.pairs ++ pairsAll rest

end

@[simp] theorem pairsAll_eq_flatMap (ns : List (Node ω)) : pairsAll ns = ns.flatMap pairs := by
  induction ns with
  | nil => rfl
  | cons n rest ih => rw [pairsAll, ih, List.flatMap_cons]

theorem pairs_list (items : List (Node ω)) (span : Span) :
    (list items span).pairs = items.flatMap pairs ++ [(span.start, span.stop - 1)] := by
  rw [pairs, pairsAll_eq_flatMap]

/-- An atom has no parentheses. -/
theorem pairs_ofAtom (text : String) (span : Span) : (ofAtom text span : Node ω).pairs = [] := by
  unfold ofAtom
  split <;> rfl

/-- The pairs in a node are those of the lists in it, at any depth. -/
theorem mem_pairs_iff {n : Node ω} {pair : Nat × Nat} :
    pair ∈ n.pairs ↔
      ∃ items span, (list items span).Inside n ∧ pair = (span.start, span.stop - 1) := by
  constructor
  · intro h
    induction n with
    | symbol name s => cases h
    | number x s => cases h
    | procedure p s => cases h
    | list items s ih =>
      rw [pairs_list, List.mem_append] at h
      rcases h with h | h
      · obtain ⟨n, hn, hpair⟩ := List.mem_flatMap.mp h
        obtain ⟨inner, span, hinside, heq⟩ := ih n hn hpair
        exact ⟨inner, span, .item s hn hinside, heq⟩
      · exact ⟨items, s, .self, List.mem_singleton.mp h⟩
  · rintro ⟨items, span, hinside, rfl⟩
    induction hinside with
    | self =>
      rw [pairs_list]
      exact List.mem_append_right _ List.mem_cons_self
    | item s mem _ ih =>
      rw [pairs_list]
      exact List.mem_append_left _ (List.mem_flatMap.mpr ⟨_, mem, ih⟩)

end Node

/-- Tokens in order, each parenthesis of one byte. -/
structure Placed (ts : List Token) : Prop where
  ordered : ts.Pairwise fun t u => t.span.stop ≤ u.span.start
  parens : ∀ t ∈ ts, (∀ text, t.lexeme ≠ .atom text) → t.span.stop = t.span.start + 1

theorem Placed.sublist {ts us : List Token} (h : Placed us) (hsub : ts.Sublist us) : Placed ts :=
  ⟨h.ordered.sublist hsub, fun t ht => h.parens t (hsub.subset ht)⟩

theorem placed_tokensFrom (start : Nat) (cs : List Char) : Placed (tokensFrom start cs) where
  ordered := (cut_tokensFrom start cs).ordered
  parens t ht hparen := by
    have hstop := ((cut_tokensFrom start cs).slices t ht).stop_eq
    obtain ⟨lexeme, span⟩ := t
    cases lexeme with
    | opening =>
      rw [Token.text, Lexeme.toList_text_opening] at hstop
      exact hstop
    | closing =>
      rw [Token.text, Lexeme.toList_text_closing] at hstop
      exact hstop
    | atom text => exact absurd rfl (hparen text)

/-- From one parenthesis to a later one, a list has them for its pair. -/
theorem Placed.pair_eq {o c : Span} {inner ts : List Token}
    (h : Placed (⟨.opening, o⟩ :: (inner ++ ⟨.closing, c⟩ :: ts))) :
    ((o.merge c).start, (o.merge c).stop - 1) = (o.start, c.start) := by
  have hclosing : ⟨.closing, c⟩ ∈ inner ++ ⟨.closing, c⟩ :: ts :=
    List.mem_append_right inner List.mem_cons_self
  have horder : o.stop ≤ c.start := List.rel_of_pairwise_cons h.ordered hclosing
  have hopen : o.stop = o.start + 1 := h.parens ⟨.opening, o⟩ List.mem_cons_self nofun
  have hclose : c.stop = c.start + 1 := h.parens ⟨.closing, c⟩ (List.mem_cons_of_mem _ hclosing) nofun
  rw [Span.merge_of_le (by omega) (by omega), hclose]
  rfl

/-- **Tokens that spell forms have the pairs of the forms**, whatever stands behind them. -/
theorem pairingTokens_of_spells {forms : List (Node ω)} {ts : List Token} (h : Spells forms ts)
    (hplaced : Placed ts) (stack : List Nat) (rest : List Token) :
    pairingTokens stack (ts ++ rest) =
      ⟨forms.flatMap Node.pairs ++ (pairingTokens stack rest).pairs,
        (pairingTokens stack rest).unmatched⟩ := by
  induction h generalizing stack rest with
  | nil => rfl
  | @atom text span forms ts _ ih =>
    rw [List.flatMap_cons, Node.pairs_ofAtom]
    exact ih (hplaced.sublist (List.sublist_cons_self _ _)) stack rest
  | @list o c items forms inner ts _ _ ihi ihr =>
    have hinner : inner.Sublist (⟨.opening, o⟩ :: (inner ++ ⟨.closing, c⟩ :: ts)) :=
      (List.sublist_append_left _ _).cons _
    have hts : ts.Sublist (⟨.opening, o⟩ :: (inner ++ ⟨.closing, c⟩ :: ts)) :=
      ((List.sublist_cons_self _ ts).trans (List.sublist_append_right _ _)).cons _
    -- inside, the opening place is on the stack; the closing parenthesis takes it off
    have hinside := ihi (hplaced.sublist hinner) (o.start :: stack) (⟨.closing, c⟩ :: (ts ++ rest))
    have hbehind := ihr (hplaced.sublist hts) stack rest
    rw [List.cons_append, List.append_assoc, List.cons_append]
    show pairingTokens (o.start :: stack) (inner ++ ⟨.closing, c⟩ :: (ts ++ rest)) = _
    rw [hinside]
    simp only [pairingTokens, hbehind]
    rw [List.flatMap_cons, Node.pairs_list, hplaced.pair_eq]
    simp only [List.append_assoc, List.cons_append, List.nil_append]

/-- **A line that can be read has the pairs of its lists**, and no parenthesis without partner. -/
theorem pairing_of_readAll {line : String} {forms : List (Node ω)}
    (h : readAll (tokenize line) = .ok forms) :
    pairing line.toList = ⟨forms.flatMap Node.pairs, []⟩ := by
  have hpairs := pairingTokens_of_spells (readAll_eq_ok_iff.mp h) (placed_tokensFrom 0 line.toList) [] []
  rw [List.append_nil] at hpairs
  rw [pairing, pairingFrom_eq_pairingTokens]
  exact hpairs.trans (congrArg (Pairing.mk · []) (List.append_nil _))

/-- The lists of a line that can be read are its pairs. -/
theorem mem_pairs_pairing_iff {line : String} {forms : List (Node ω)}
    (h : readAll (tokenize line) = .ok forms) {a b : Nat} :
    (a, b) ∈ (pairing line.toList).pairs ↔
      ∃ form ∈ forms, ∃ items, (Node.list items ⟨a, b + 1⟩).Inside form := by
  rw [pairing_of_readAll h, List.mem_flatMap]
  constructor
  · rintro ⟨form, hform, hpair⟩
    obtain ⟨items, ⟨start, stop⟩, hinside, heq⟩ := Node.mem_pairs_iff.mp hpair
    obtain ⟨whole, hwhole⟩ := readAll_stands h form hform
    obtain ⟨part, hpart⟩ := hinside.stands hwhole
    have hlt : start < stop := hpart.start_lt_stop
    obtain ⟨rfl, rfl⟩ := Prod.mk.inj heq
    refine ⟨form, hform, items, ?_⟩
    rwa [Nat.sub_add_cancel (Nat.one_le_of_lt hlt)]
  · rintro ⟨form, hform, items, hinside⟩
    exact ⟨form, hform, Node.mem_pairs_iff.mpr ⟨items, _, hinside, rfl⟩⟩

end MiniLisp
