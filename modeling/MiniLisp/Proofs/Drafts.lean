import MiniLisp.Proofs.Highlighting
import MiniLisp.Proofs.Partners

/-!
# Drafts: highlighting in place

The highlighter may find all pairs first and then colour the line, or colour it as it goes and come back to an
open parenthesis when its partner turns up. Coming back replaces a character in the middle of what is written,
and what stands behind it moves. This file fixes that nothing goes wrong with that:

* `Suits`: the colours that the pairs to come ask for, in terms of the open parentheses and what is left of
  the line. One character less, and they still suit; those of a line suit all of it (`suits_colourAt?`);
* `Draft.Follows`: **the invariant**. What is written is the coloured line as far as it has been read, but for
  the open parentheses, which are without colour, each where the draft says (`Opened`);
* `Draft.Follows.write?`: one character keeps it, and no replacement fails; so do all that are left
  (`Draft.Follows.writeAll?`);
* `ShownAs`, `Shown`: what becomes of each character, told from partners alone (`shown_iff`);
* **`highlight_in_place`**: the result.
-/

namespace MiniLisp

/-! ## 1. Colours that suit -/

/-- The colour of one of the partners `a` and `b`: it has one if the cursor is on either. -/
def pairColour (cursor a b : Nat) (colour : Colour) : Option Colour :=
  if cursor = b + 1 ∨ cursor = a + 1 then some colour else none

/-- The colours are those of the pairs behind open parentheses at the places `stack`, in the text from byte
    `position` on: for each pair as the cursor is on it, red for what is left over, none for all else. -/
structure Suits (colours : Nat → Option Colour) (cursor : Nat) (stack : List Nat) (position : Nat)
    (cs : List Char) : Prop where
  opening : ∀ a b, (a, b) ∈ (pairingFrom stack position cs).pairs →
    colours a = pairColour cursor a b .boldBlue
  closing : ∀ a b, (a, b) ∈ (pairingFrom stack position cs).pairs →
    colours b = pairColour cursor a b .blue
  alone : ∀ i ∈ (pairingFrom stack position cs).unmatched, colours i = some .red
  plain : ∀ i, i ∈ stack ∨ position ≤ i → i ∉ (pairingFrom stack position cs).places →
    i ∉ (pairingFrom stack position cs).unmatched → colours i = none

section Suits

variable {colours : Nat → Option Colour} {cursor position : Nat} {stack : List Nat} {c : Char}
  {cs : List Char}

/-- A character that is no parenthesis has no colour. -/
theorem Suits.other (h : Suits colours cursor stack position (c :: cs)) (hc : isParen c = false)
    (hstack : (position :: stack).Pairwise (· > ·)) :
    colours position = none ∧ Suits colours cursor stack (position + c.utf8Size) cs := by
  have hsize := c.utf8Size_pos
  have hbefore : ∀ i ∈ stack, i < position := fun i hi => List.rel_of_pairwise_cons hstack hi
  have hnodup : stack.Nodup := hstack.of_cons.imp fun hgt => Nat.ne_of_gt hgt
  have heq := pairingFrom_other hc stack position cs
  obtain ⟨hopening, hclosing, halone, hplain⟩ := h
  rw [heq] at hopening hclosing halone hplain
  refine ⟨hplain position (.inr (Nat.le_refl _)) (fun hmem => ?_) (fun hmem => ?_), hopening, hclosing,
    halone, fun i hi => hplain i (hi.imp_right fun hle => ?_)⟩
  · rcases (nodup_places_pairingFrom hnodup (fun i hi => Nat.lt_add_right _ (hbefore i hi)) cs).2 _ hmem
      with hopen | hle
    · exact Nat.lt_irrefl _ (hbefore _ hopen)
    · omega
  · have hle := le_of_mem_unmatched hmem
    omega
  · omega

theorem Suits.push (h : Suits colours cursor stack position ('(' :: cs)) :
    Suits colours cursor (position :: stack) (position + 1) cs where
  opening := h.opening
  closing := h.closing
  alone := h.alone
  plain i hi := h.plain i <| by
    rcases hi with hi | hle
    · exact (List.mem_cons.mp hi).symm.imp_right fun heq => Nat.le_of_eq heq.symm
    · exact .inr (Nat.le_of_succ_le hle)

/-- A closing parenthesis with none open is red. -/
theorem Suits.leave (h : Suits colours cursor [] position (')' :: cs)) :
    colours position = some .red ∧ Suits colours cursor [] (position + 1) cs := by
  refine ⟨h.alone position List.mem_cons_self, h.opening, h.closing,
    fun i hi => h.alone i (List.mem_cons_of_mem position hi), fun i hi hplaces hunmatched => ?_⟩
  have hle : position + 1 ≤ i := hi.resolve_left List.not_mem_nil
  refine h.plain i (.inr (Nat.le_of_succ_le hle)) hplaces fun hmem => ?_
  exact (List.mem_cons.mp hmem).elim (Nat.ne_of_gt hle) hunmatched

/-- A closing parenthesis and the one that was opened last have the colours of their pair. -/
theorem Suits.pop {opening : Nat} {outer : List Nat}
    (h : Suits colours cursor (opening :: outer) position (')' :: cs))
    (hstack : (position :: opening :: outer).Pairwise (· > ·)) :
    colours opening = pairColour cursor opening position .boldBlue ∧
      colours position = pairColour cursor opening position .blue ∧
        Suits colours cursor outer (position + 1) cs := by
  refine ⟨h.opening _ _ List.mem_cons_self, h.closing _ _ List.mem_cons_self,
    fun a b hmem => h.opening a b (List.mem_cons_of_mem _ hmem),
    fun a b hmem => h.closing a b (List.mem_cons_of_mem _ hmem), h.alone,
    fun i hi hplaces => h.plain i ?_ fun hmem => ?_⟩
  · exact hi.imp (List.mem_cons_of_mem opening) Nat.le_of_succ_le
  · have hlt : opening < position := List.rel_of_pairwise_cons hstack List.mem_cons_self
    have hopen : ∀ i ∈ outer, i < opening := fun i hi => List.rel_of_pairwise_cons hstack.of_cons hi
    rcases List.mem_cons.mp hmem with rfl | hmem
    · rcases hi with hi | hle
      · exact Nat.lt_irrefl _ (hopen _ hi)
      · omega
    rcases List.mem_cons.mp hmem with rfl | hmem
    · rcases hi with hi | hle
      · exact Nat.lt_asymm hlt (hopen _ hi)
      · omega
    exact hplaces hmem

end Suits

/-- The places of a pair are among the places that are in pairs. -/
theorem Pairing.mem_places {p : Pairing} {a b : Nat} (h : (a, b) ∈ p.pairs) :
    a ∈ p.places ∧ b ∈ p.places :=
  ⟨List.mem_flatMap.mpr ⟨_, h, List.mem_cons_self⟩,
    List.mem_flatMap.mpr ⟨_, h, List.mem_cons_of_mem _ List.mem_cons_self⟩⟩

theorem nodup_places_pairing (cs : List Char) : (pairing cs).places.Nodup :=
  (nodup_places_pairingFrom .nil nofun cs).1

/-- The partners of which one is under the cursor. -/
def Active (cs : List Char) (cursor a b : Nat) : Prop :=
  Partners cs a b ∧ (cursor = b + 1 ∨ cursor = a + 1)

/-- **They are the pair that the highlighter finds under the cursor**, so there is one such pair at most. -/
theorem active_iff {cs : List Char} {cursor a b : Nat} :
    Active cs cursor a b ↔ (pairing cs).active? cursor = some (a, b) := by
  cases cursor with
  | zero => exact iff_of_false (fun h => by simp [Active] at h) nofun
  | succ place =>
    rw [Pairing.active?_eq_some (nodup_places_pairing cs), mem_pairs_pairing_iff_partners, Active,
      Nat.add_right_cancel_iff, Nat.add_right_cancel_iff, or_comm]

section Line

variable {line : String} {cursor a b i : Nat}

/-- Partners are not left over. -/
theorem notMem_unmatched_of_mem_places {cs : List Char} (h : i ∈ (pairing cs).places) :
    i ∉ (pairing cs).unmatched := by
  have hnone : ∀ i ∈ ([] : List Nat), i < 0 := nofun
  exact fun hmem => notMem_places_of_mem_unmatched hnone hmem h

theorem colourAt?_of_active (h : Active line.toList cursor a b) :
    colourAt? line cursor a = some .boldBlue ∧ colourAt? line cursor b = some .blue := by
  obtain ⟨ha, hb⟩ := Pairing.mem_places (mem_pairs_pairing_iff_partners.mpr h.1)
  have hne : b ≠ a := Nat.ne_of_gt h.1.lt
  simp [colourAt?, Pairing.colour?, active_iff.mp h, notMem_unmatched_of_mem_places ha,
    notMem_unmatched_of_mem_places hb, hne]

theorem colourAt?_of_inactive (h : i ∉ (pairing line.toList).unmatched)
    (hinactive : ∀ a b, Active line.toList cursor a b → i ≠ a ∧ i ≠ b) :
    colourAt? line cursor i = none := by
  cases hactive : (pairing line.toList).active? cursor with
  | none => simp [colourAt?, Pairing.colour?, hactive, h]
  | some pair =>
    obtain ⟨hopening, hclosing⟩ := hinactive _ _ (active_iff.mpr hactive)
    simp [colourAt?, Pairing.colour?, hactive, h, hopening, hclosing]

/-- A pair that is not under the cursor shares no place with the one that is. -/
theorem ne_of_inactive {cs : List Char} (hpartners : Partners cs a b)
    (hcursor : ¬ (cursor = b + 1 ∨ cursor = a + 1)) (hi : i ∈ [a, b]) (x y : Nat)
    (hactive : Active cs cursor x y) : i ≠ x ∧ i ≠ y := by
  have hapart : i ∉ [x, y] := by
    intro hmem
    have hpair := Pairing.eq_of_mem_places (nodup_places_pairing cs)
      (mem_pairs_pairing_iff_partners.mpr hpartners) (mem_pairs_pairing_iff_partners.mpr hactive.1) hi hmem
    obtain ⟨rfl, rfl⟩ := Prod.mk.inj hpair
    exact hcursor hactive.2
  simpa using hapart

/-- Partners have the colours of their pair. -/
theorem colourAt?_of_partners (h : Partners line.toList a b) :
    colourAt? line cursor a = pairColour cursor a b .boldBlue ∧
      colourAt? line cursor b = pairColour cursor a b .blue := by
  by_cases hcursor : cursor = b + 1 ∨ cursor = a + 1
  · simp only [pairColour, if_pos hcursor]
    exact colourAt?_of_active ⟨h, hcursor⟩
  · obtain ⟨ha, hb⟩ := Pairing.mem_places (mem_pairs_pairing_iff_partners.mpr h)
    simp only [pairColour, if_neg hcursor]
    exact ⟨colourAt?_of_inactive (notMem_unmatched_of_mem_places ha) (ne_of_inactive h hcursor (by simp)),
      colourAt?_of_inactive (notMem_unmatched_of_mem_places hb) (ne_of_inactive h hcursor (by simp))⟩

end Line

/-- **The colours of a line suit all of it.** -/
theorem suits_colourAt? (line : String) (cursor : Nat) :
    Suits (colourAt? line cursor) cursor [] 0 line.toList where
  opening a b hmem := (colourAt?_of_partners (mem_pairs_pairing_iff_partners.mp hmem)).1
  closing a b hmem := (colourAt?_of_partners (mem_pairs_pairing_iff_partners.mp hmem)).2
  alone i hi := colourAt?_eq_red.mpr hi
  plain i _ hplaces hunmatched := by
    refine colourAt?_of_inactive hunmatched fun a b hactive => ?_
    obtain ⟨ha, hb⟩ := Pairing.mem_places (mem_pairs_pairing_iff_partners.mpr hactive.1)
    exact ⟨fun h => hplaces (h ▸ ha), fun h => hplaces (h ▸ hb)⟩

/-! ## 2. Drafts -/

/-- The colours, with none at the places `stack`. -/
def withhold (stack : List Nat) (colours : Nat → Option Colour) (i : Nat) : Option Colour :=
  if i ∈ stack then none else colours i

theorem withhold_of_notMem {stack : List Nat} {i : Nat} (h : i ∉ stack) (colours : Nat → Option Colour) :
    withhold stack colours i = colours i := if_neg h

/-- What is painted depends on the colours at its places only. -/
theorem paintFrom_congr {colours colours' : Nat → Option Colour} {position : Nat} {cs : List Char}
    (h : ∀ i, position ≤ i → i < position + byteLength cs → colours i = colours' i) :
    paintFrom colours position cs = paintFrom colours' position cs := by
  induction cs generalizing position with
  | nil => rfl
  | cons c cs ih =>
    have hsize := c.utf8Size_pos
    rw [byteLength_cons] at h
    have hfirst : colours position = colours' position := h position (Nat.le_refl _) (by omega)
    rw [paintFrom_cons, paintFrom_cons, hfirst, ih fun i hle hlt => h i (by omega) (by omega)]

/-- A character of one byte is replaced where it begins, and nothing else is. -/
theorem replaceByte?_append (front piece back : List Char) {c : Char} (hc : c.utf8Size = 1) :
    replaceByte? (byteLength front) piece (front ++ c :: back) = some (front ++ (piece ++ back)) := by
  induction front with
  | nil =>
    rw [List.nil_append, replaceByte?, if_pos byteLength_nil, if_pos hc]
    rfl
  | cons d front ih =>
    have hsize := d.utf8Size_pos
    rw [List.cons_append, byteLength_cons, replaceByte?, if_neg (by omega), if_pos (by omega),
      Nat.add_sub_cancel_left, ih]
    rfl

namespace Draft

/-- The places of the open parentheses in the line. -/
def stack (d : Draft) : List Nat := d.openings.map Prod.fst

/-- The open parenthesis at byte `entry.1` of what has been read is at byte `entry.2` of what is painted
    of it. -/
def Opened (colours : Nat → Option Colour) (read : List Char) (entry : Nat × Nat) : Prop :=
  ∃ before inside, read = before ++ '(' :: inside ∧ byteLength before = entry.1 ∧
    byteLength (paintFrom colours 0 before) = entry.2

/-- The draft is of the characters `read`, in the colours of the line but for the open parentheses. -/
structure Follows (colours : Nat → Option Colour) (read : List Char) (d : Draft) : Prop where
  written : d.written = paintFrom (withhold d.stack colours) 0 read
  opened : ∀ entry ∈ d.openings, Opened (withhold d.stack colours) read entry
  ordered : (byteLength read :: d.stack).Pairwise (· > ·)

theorem write?_other {c : Char} (h : isParen c = false) (cursor : Nat) (d : Draft) (position : Nat) :
    d.write? cursor position c = some { d with written := d.written ++ [c] } := by
  have hne : c ≠ '(' ∧ c ≠ ')' := by simpa [isParen] using h
  rw [write?, if_neg hne.1, if_neg hne.2]

/-- Where an open parenthesis is as the draft says, its partner gives both their colours. -/
theorem write?_closing (cursor opening position : Nat) (outer : List (Nat × Nat)) (front back : List Char) :
    Draft.write? cursor ⟨(opening, byteLength front) :: outer, front ++ '(' :: back⟩ position ')' =
      some ⟨outer, front ++ (paintWith (pairColour cursor opening position .boldBlue) '(' ++ back) ++
        paintWith (pairColour cursor opening position .blue) ')'⟩ := by
  have hne : ')' ≠ '(' := by decide
  rw [write?, if_neg hne, if_pos rfl]
  by_cases hcursor : cursor = position + 1 ∨ cursor = opening + 1
  · simp only [pairColour, if_pos hcursor, List.append_assoc, List.cons_append]
    rw [replaceByte?_append front _ _ rfl]
    rfl
  · simp only [pairColour, if_neg hcursor]
    rfl

variable {colours colours' : Nat → Option Colour} {read : List Char} {d : Draft}

/-- Where an open parenthesis is does not depend on what comes behind it. -/
theorem Opened.congr {entry : Nat × Nat} (h : Opened colours read entry)
    (hbefore : ∀ i < entry.1, colours i = colours' i) (more : List Char) :
    Opened colours' (read ++ more) entry := by
  obtain ⟨before, inside, rfl, hplace, hwritten⟩ := h
  refine ⟨before, inside ++ more, List.append_assoc _ _ _, hplace, ?_⟩
  rw [← hwritten]
  refine congrArg byteLength (paintFrom_congr fun i _ hlt => (hbefore i ?_).symm)
  omega

namespace Follows

theorem lt_of_mem (h : d.Follows colours read) {i : Nat} (hi : i ∈ d.stack) : i < byteLength read :=
  List.rel_of_pairwise_cons h.ordered hi

theorem empty (colours : Nat → Option Colour) : Follows colours [] ⟨[], []⟩ where
  written := rfl
  opened := nofun
  ordered := List.pairwise_singleton _ _

/-- What is read and is no open parenthesis is written in its colour. -/
theorem write (h : d.Follows colours read) (c : Char) :
    Follows colours (read ++ [c])
      { d with written := d.written ++ paintWith (colours (byteLength read)) c } where
  written := by
    have hnotMem : byteLength read ∉ d.stack := fun hmem => Nat.lt_irrefl _ (h.lt_of_mem hmem)
    show _ = paintFrom (withhold d.stack colours) 0 (read ++ [c])
    rw [paintFrom_append, paintFrom_cons, Nat.zero_add, withhold_of_notMem hnotMem, ← h.written]
    exact congrArg _ (List.append_nil _).symm
  opened entry hentry := (h.opened entry hentry).congr (fun _ _ => rfl) [c]
  ordered := by
    refine List.pairwise_cons.mpr ⟨fun i hi => ?_, h.ordered.of_cons⟩
    have hlt : i < byteLength read := h.lt_of_mem hi
    rw [byteLength_append]
    omega

/-- An opening parenthesis is written as it is, whatever its colour is to be. -/
theorem push (h : d.Follows colours read) :
    Follows colours (read ++ ['('])
      ⟨(byteLength read, byteLength d.written) :: d.openings, d.written ++ ['(']⟩ := by
  -- what is before the new one is painted as it was
  have hbefore : ∀ i < byteLength read,
      withhold d.stack colours i = withhold (byteLength read :: d.stack) colours i := by
    intro i hlt
    simp [withhold, List.mem_cons, Nat.ne_of_lt hlt]
  have hread : d.written = paintFrom (withhold (byteLength read :: d.stack) colours) 0 read :=
    h.written.trans (paintFrom_congr fun i _ hlt => hbefore i (by omega))
  refine ⟨?_, List.forall_mem_cons.mpr ⟨?_, fun entry hentry => ?_⟩, ?_⟩
  · show d.written ++ ['('] = paintFrom (withhold (byteLength read :: d.stack) colours) 0 (read ++ ['('])
    rw [paintFrom_append, ← hread, paintFrom_cons, Nat.zero_add]
    simp [withhold, paintWith, paintFrom]
  · exact ⟨read, [], rfl, rfl, congrArg byteLength hread.symm⟩
  · refine (h.opened entry hentry).congr (fun i hlt => hbefore i ?_) ['(']
    exact Nat.lt_trans hlt (h.lt_of_mem (List.mem_map_of_mem hentry))
  · show (byteLength (read ++ ['(']) :: byteLength read :: d.stack).Pairwise (· > ·)
    refine List.pairwise_cons.mpr ⟨fun i hi => ?_, h.ordered⟩
    rw [byteLength_append]
    rcases List.mem_cons.mp hi with rfl | hi
    · exact Nat.lt_succ_self _
    · exact Nat.lt_succ_of_lt (h.lt_of_mem hi)

/-- The parenthesis that was opened last is where the draft says, and may be given its colour. -/
theorem exists_pop (h : d.Follows colours read) {opening place : Nat} {outer : List (Nat × Nat)}
    (hopenings : d.openings = (opening, place) :: outer) :
    ∃ front back, d.written = front ++ '(' :: back ∧ byteLength front = place ∧
      Follows colours read ⟨outer, front ++ (paintWith (colours opening) '(' ++ back)⟩ := by
  obtain ⟨before, inside, hread, hplace, hwritten⟩ :=
    h.opened (opening, place) (hopenings ▸ List.mem_cons_self)
  have hstack : d.stack = opening :: outer.map Prod.fst := by rw [stack, hopenings]; rfl
  have hordered : (byteLength read :: opening :: outer.map Prod.fst).Pairwise (· > ·) := hstack ▸ h.ordered
  have houter : ∀ i ∈ outer.map Prod.fst, i < opening := fun i hi =>
    List.rel_of_pairwise_cons hordered.of_cons hi
  have hopen : opening ∉ outer.map Prod.fst := fun hmem => Nat.lt_irrefl _ (houter _ hmem)
  -- only the one parenthesis is painted otherwise than it was
  have helse : ∀ i, i ≠ opening →
      withhold d.stack colours i = withhold (outer.map Prod.fst) colours i := by
    intro i hne
    simp only [hstack, withhold, List.mem_cons, hne, false_or]
  have hfront : paintFrom (withhold d.stack colours) 0 before =
      paintFrom (withhold (outer.map Prod.fst) colours) 0 before :=
    paintFrom_congr fun i _ hlt => helse i (by omega)
  have hback : paintFrom (withhold d.stack colours) (opening + 1) inside =
      paintFrom (withhold (outer.map Prod.fst) colours) (opening + 1) inside :=
    paintFrom_congr fun i hle _ => helse i (by omega)
  have hnow : withhold d.stack colours opening = none :=
    if_pos (hstack ▸ List.mem_cons_self)
  refine ⟨paintFrom (withhold d.stack colours) 0 before,
    paintFrom (withhold d.stack colours) (opening + 1) inside, ?_, hwritten, ?_, fun entry hentry => ?_, ?_⟩
  · rw [h.written, hread, paintFrom_append, paintFrom_cons, Nat.zero_add, hplace, hnow]
    rfl
  · show _ = paintFrom (withhold (outer.map Prod.fst) colours) 0 read
    rw [hread, paintFrom_append, paintFrom_cons, Nat.zero_add, hplace, withhold_of_notMem hopen, hfront,
      hback]
    rfl
  · have hlt : entry.1 < opening := houter _ (List.mem_map_of_mem hentry)
    have hmem : entry ∈ d.openings := hopenings ▸ List.mem_cons_of_mem _ hentry
    have hentry := (h.opened entry hmem).congr (fun i hi => helse i (by omega)) []
    rwa [List.append_nil] at hentry
  · exact hordered.sublist ((List.sublist_cons_self _ _).cons_cons _)

/-- **One character more**: no replacement fails, and the draft is of one character more. -/
theorem write? (h : d.Follows colours read) {cursor : Nat} {c : Char} {cs : List Char}
    (hsuits : Suits colours cursor d.stack (byteLength read) (c :: cs)) :
    ∃ next, d.write? cursor (byteLength read) c = some next ∧ next.Follows colours (read ++ [c]) ∧
      Suits colours cursor next.stack (byteLength (read ++ [c])) cs := by
  rw [byteLength_append]
  rcases paren_cases c with hc | rfl | rfl
  · obtain ⟨hnone, hrest⟩ := hsuits.other hc h.ordered
    have hwritten := h.write c
    rw [hnone] at hwritten
    exact ⟨_, write?_other hc cursor d _, hwritten, hrest⟩
  · exact ⟨_, rfl, h.push, hsuits.push⟩
  · obtain ⟨openings, written⟩ := d
    cases openings with
    | nil =>
      obtain ⟨hred, hrest⟩ := hsuits.leave
      have hwritten := h.write ')'
      rw [hred] at hwritten
      exact ⟨_, rfl, hwritten, hrest⟩
    | cons entry outer =>
      obtain ⟨opening, place⟩ := entry
      obtain ⟨hopening, hclosing, hrest⟩ := hsuits.pop h.ordered
      obtain ⟨front, back, rfl, rfl, hpopped⟩ := h.exists_pop rfl
      have hwritten := hpopped.write ')'
      rw [hopening, hclosing] at hwritten
      exact ⟨_, write?_closing .., hwritten, hrest⟩

/-- **All characters that are left.** -/
theorem writeAll? (h : d.Follows colours read) {cursor : Nat} {cs : List Char}
    (hsuits : Suits colours cursor d.stack (byteLength read) cs) :
    ∃ last, d.writeAll? cursor (byteLength read) cs = some last ∧
      last.written = paintFrom colours 0 (read ++ cs) := by
  induction cs generalizing d read with
  | nil =>
    refine ⟨d, rfl, ?_⟩
    rw [List.append_nil, h.written]
    -- what is still open is in no pair, so it has no colour
    refine paintFrom_congr fun i _ _ => ?_
    by_cases hi : i ∈ d.stack
    · rw [withhold, if_pos hi, hsuits.plain i (.inl hi) nofun nofun]
    · exact withhold_of_notMem hi colours
  | cons c cs ih =>
    obtain ⟨next, hnext, hfollows, hrest⟩ := h.write? hsuits
    obtain ⟨last, hlast, hwritten⟩ := ih hfollows hrest
    refine ⟨last, ?_, ?_⟩
    · rw [byteLength_append] at hlast
      rw [Draft.writeAll?, hnext]
      exact hlast
    · rw [hwritten, List.append_assoc]
      rfl

end Follows

end Draft

/-- **Highlighting in place is highlighting.** -/
theorem highlightInPlace?_eq (line : String) (cursor : Nat) :
    highlightInPlace? line cursor = some (highlight line cursor) := by
  obtain ⟨last, hlast, hwritten⟩ :=
    (Draft.Follows.empty (colourAt? line cursor)).writeAll? (suits_colourAt? line cursor)
  have hlast : Draft.writeAll? cursor ⟨[], []⟩ 0 line.toList = some last := hlast
  rw [highlightInPlace?, hlast, Option.map_some, hwritten]
  rfl

/-- Coming back to the opening parenthesis counts the bytes that were put in before it. -/
example : highlightInPlace? ")é(ü)" 7 = some "\x1b[31m)\x1b[0mé\x1b[1;34m(\x1b[0mü\x1b[34m)\x1b[0m" := by
  decide +kernel

/-! ## 3. What becomes of each character -/

/-- What the character at a byte of a line comes out as. -/
inductive ShownAs (cs : List Char) (cursor : Nat) : Nat → Char → List Char → Prop
  | alone {b : Nat} (hnone : ∀ a, ¬ Partners cs a b) :
    ShownAs cs cursor b ')' (Colour.red.paint ')')
  | opening {a b : Nat} (hactive : Active cs cursor a b) :
    ShownAs cs cursor a '(' (Colour.boldBlue.paint '(')
  | closing {a b : Nat} (hactive : Active cs cursor a b) :
    ShownAs cs cursor b ')' (Colour.blue.paint ')')
  | plain {i : Nat} {c : Char} (hpartner : c = ')' → ∃ a, Partners cs a i)
    (hinactive : ∀ a b, Active cs cursor a b → i ≠ a ∧ i ≠ b) : ShownAs cs cursor i c [c]

/-- What the characters from a byte of a line on come out as. -/
inductive Shown (cs : List Char) (cursor : Nat) : Nat → List Char → List Char → Prop
  | nil {position : Nat} : Shown cs cursor position [] []
  | cons {position : Nat} {c : Char} {rest piece out : List Char}
    (first : ShownAs cs cursor position c piece)
    (more : Shown cs cursor (position + c.utf8Size) rest out) :
    Shown cs cursor position (c :: rest) (piece ++ out)

section Shown

variable {cs : List Char} {cursor i : Nat} {c : Char}

/-- A character comes out in one way. -/
theorem ShownAs.unique {piece piece' : List Char} (h : ShownAs cs cursor i c piece)
    (h' : ShownAs cs cursor i c piece') : piece = piece' := by
  cases h with
  | alone hnone =>
    cases h' with
    | alone => rfl
    | closing hactive => exact absurd hactive.1 (hnone _)
    | plain hpartner =>
      obtain ⟨a, ha⟩ := hpartner rfl
      exact absurd ha (hnone a)
  | opening hactive =>
    cases h' with
    | opening => rfl
    | plain _ hinactive => exact absurd rfl (hinactive _ _ hactive).1
  | closing hactive =>
    cases h' with
    | alone hnone => exact absurd hactive.1 (hnone _)
    | closing => rfl
    | plain _ hinactive => exact absurd rfl (hinactive _ _ hactive).2
  | plain hpartner hinactive =>
    cases h' with
    | alone hnone =>
      obtain ⟨a, ha⟩ := hpartner rfl
      exact absurd ha (hnone a)
    | opening hactive => exact absurd rfl (hinactive _ _ hactive).1
    | closing hactive => exact absurd rfl (hinactive _ _ hactive).2
    | plain => rfl

/-- At a byte of a text stands one character. -/
theorem eq_of_byteLength_eq {as bs xs ys : List Char} {d : Char} (h : as ++ c :: xs = bs ++ d :: ys)
    (hlength : byteLength as = byteLength bs) : c = d := by
  have hdrop := congrArg (dropBytes (byteLength as)) h
  rw [dropBytes_append, hlength, dropBytes_append] at hdrop
  exact (List.cons.inj hdrop).1

end Shown

/-- **Each character comes out in its colour.** -/
theorem shownAs_paintWith {line : String} {before after : List Char} {c : Char}
    (hline : line.toList = before ++ c :: after) (cursor : Nat) :
    ShownAs line.toList cursor (byteLength before) c
      (paintWith (colourAt? line cursor (byteLength before)) c) := by
  -- what else is said to stand at this place is this character
  have hchar : ∀ {d : Char}, (∃ front back, line.toList = front ++ d :: back ∧
      byteLength front = byteLength before) → c = d := by
    rintro d ⟨front, back, hfront, hlength⟩
    exact eq_of_byteLength_eq (hline.symm.trans hfront) hlength.symm
  by_cases hunmatched : byteLength before ∈ (pairing line.toList).unmatched
  · obtain ⟨hclosing, hnone⟩ := mem_unmatched_iff.mp hunmatched
    obtain rfl := hchar hclosing
    rw [colourAt?_eq_red.mpr hunmatched]
    exact .alone hnone
  by_cases hactive : ∃ a b, Active line.toList cursor a b ∧ (byteLength before = a ∨ byteLength before = b)
  · obtain ⟨a, b, hactive, rfl | rfl⟩ := hactive
    · obtain rfl := hchar hactive.1.exists_parens.1
      rw [(colourAt?_of_active hactive).1]
      exact .opening hactive
    · obtain rfl := hchar hactive.1.exists_parens.2
      rw [(colourAt?_of_active hactive).2]
      exact .closing hactive
  · have hinactive : ∀ a b, Active line.toList cursor a b → byteLength before ≠ a ∧ byteLength before ≠ b :=
      fun a b h => ⟨fun ha => hactive ⟨a, b, h, .inl ha⟩, fun hb => hactive ⟨a, b, h, .inr hb⟩⟩
    rw [colourAt?_of_inactive hunmatched hinactive]
    refine .plain (fun hc => ?_) hinactive
    subst hc
    exact Classical.byContradiction fun hnone => hunmatched
      (mem_unmatched_iff.mpr ⟨⟨before, after, hline, rfl⟩, fun a ha => hnone ⟨a, ha⟩⟩)

/-- **What the characters of a line come out as is what the highlighter makes of it.** -/
theorem shown_iff {line : String} {cursor : Nat} {before rest : List Char}
    (hline : line.toList = before ++ rest) {out : List Char} :
    Shown line.toList cursor (byteLength before) rest out ↔
      out = paintFrom (colourAt? line cursor) (byteLength before) rest := by
  induction rest generalizing before out with
  | nil =>
    constructor
    · rintro ⟨⟩
      rfl
    · rintro rfl
      exact .nil
  | cons c rest ih =>
    have hfirst := shownAs_paintWith hline cursor
    have hrest : line.toList = (before ++ [c]) ++ rest := by
      rw [hline, List.append_assoc]
      rfl
    have hlength : byteLength (before ++ [c]) = byteLength before + c.utf8Size := byteLength_append _ _
    have ih := @ih (before ++ [c])
    rw [hlength] at ih
    rw [paintFrom_cons]
    constructor
    · rintro (_ | ⟨first, more⟩)
      rw [first.unique hfirst, (ih hrest).mp more]
    · rintro rfl
      exact .cons hfirst ((ih hrest).mpr rfl)

/-! ## 4. Highlighting -/

/-- **On every line, wherever the cursor is, highlighting in place never fails and comes to what highlighting
    with all pairs at hand comes to**: a closing parenthesis that is nobody's partner in red, the partners of
    which one is under the cursor in blue, all else as it is. They are one pair at most, and at the beginning
    of the line there is none. -/
theorem highlight_in_place (line : String) (cursor : Nat) :
    highlightInPlace? line cursor = some (highlight line cursor) ∧
      (∀ out, Shown line.toList cursor 0 line.toList out ↔ out = (highlight line cursor).toList) ∧
      (∀ a b, Active line.toList cursor a b ↔
        (pairing line.toList).active? cursor = some (a, b)) ∧
      ∀ a b, ¬ Active line.toList 0 a b := by
  refine ⟨highlightInPlace?_eq line cursor, fun out => ?_, fun a b => active_iff, fun a b hactive => ?_⟩
  · rw [toList_highlight]
    exact shown_iff (List.nil_append _).symm
  · exact absurd (active_iff.mp hactive) nofun

end MiniLisp
