import MiniLisp.Proofs.Pairs

/-!
# Partners: pairs by counting

The highlighter finds pairs with a stack. Which parentheses are partners can be said without one: between them
as many close as open, and up to no point of it more. This file fixes that the two agree on every line,
whatever else stands in it:

* `Closes`: a text closes so many parentheses more than it opens, and no beginning of it more than that.
  Character by character it counts like a stack (`closes_opening`, `closes_closing_succ`);
* `ClosedAt`, `PartnersFrom`: where open parentheses get their partners, and which get theirs later on;
* **`mem_pairs_pairingFrom_iff`**: behind open parentheses, the pairs are these and no others, so **the pairs
  of a line are its partners** (`mem_pairs_pairing_iff_partners`);
* `mem_unmatched_iff`: left over are the closing parentheses that are nobody's partner.
-/

namespace MiniLisp

/-! ## 1. Counting -/

/-- The text closes `k` parentheses more than it opens, and no beginning of it closes more than that. -/
def Closes (k : Nat) (cs : List Char) : Prop :=
  cs.count ')' = cs.count '(' + k ∧ ∀ front, front <+: cs → front.count ')' ≤ front.count '(' + k

@[simp] theorem closes_nil {k : Nat} : Closes k [] ↔ k = 0 := by
  constructor
  · rintro ⟨hcount, _⟩
    simpa using hcount.symm
  · rintro rfl
    refine ⟨rfl, fun front hfront => ?_⟩
    rw [List.prefix_nil.mp hfront]
    exact Nat.le_refl 0

/-- What is the case of all beginnings of a text with a first character: it is of nothing, and of all
    beginnings of the rest behind that character. -/
theorem forall_prefix_cons {p : List Char → Prop} {c : Char} {cs : List Char} :
    (∀ front, front <+: c :: cs → p front) ↔ p [] ∧ ∀ front, front <+: cs → p (c :: front) := by
  constructor
  · intro h
    exact ⟨h [] List.nil_prefix, fun front hfront => h _ (List.cons_prefix_cons.mpr ⟨rfl, hfront⟩)⟩
  · rintro ⟨hnil, hcons⟩ front hfront
    cases front with
    | nil => exact hnil
    | cons d front =>
      obtain ⟨rfl, hrest⟩ := List.cons_prefix_cons.mp hfront
      exact hcons front hrest

section Character

variable {c : Char} {k : Nat} {cs : List Char}

theorem closes_other (h : isParen c = false) : Closes k (c :: cs) ↔ Closes k cs := by
  have hne : c ≠ '(' ∧ c ≠ ')' := by simpa [isParen] using h
  have hcount : ∀ cs : List Char, (c :: cs).count ')' = cs.count ')' ∧
      (c :: cs).count '(' = cs.count '(' := fun cs =>
    ⟨List.count_cons_of_ne hne.2, List.count_cons_of_ne hne.1⟩
  simp only [Closes, forall_prefix_cons, hcount]
  simp

@[simp] theorem closes_opening : Closes k ('(' :: cs) ↔ Closes (k + 1) cs := by
  have hcount : ∀ cs : List Char, ('(' :: cs).count ')' = cs.count ')' ∧
      ('(' :: cs).count '(' + k = cs.count '(' + (k + 1) := fun cs =>
    ⟨List.count_cons_of_ne (by decide), by rw [List.count_cons_self, Nat.add_right_comm, Nat.add_assoc]⟩
  simp only [Closes, forall_prefix_cons, hcount]
  simp

@[simp] theorem closes_closing_succ : Closes (k + 1) (')' :: cs) ↔ Closes k cs := by
  have hcount : ∀ cs : List Char, (')' :: cs).count ')' = cs.count ')' + 1 ∧
      (')' :: cs).count '(' = cs.count '(' := fun cs =>
    ⟨List.count_cons_self, List.count_cons_of_ne (by decide)⟩
  simp only [Closes, forall_prefix_cons, hcount, ← Nat.add_assoc]
  simp

/-- A text that begins by closing closes something. -/
@[simp] theorem not_closes_closing_zero : ¬ Closes 0 (')' :: cs) := by
  rintro ⟨_, hfront⟩
  exact absurd (hfront [')'] (List.cons_prefix_cons.mpr ⟨rfl, List.nil_prefix⟩)) (by decide)

end Character

/-! ## 2. Partners -/

/-- In `cs`, the parentheses that open at byte `a` and close at byte `b` are partners: the text between
    them closes as many as it opens, and no beginning of it closes more. -/
def Partners (cs : List Char) (a b : Nat) : Prop :=
  ∃ before inside after, cs = before ++ '(' :: (inside ++ ')' :: after) ∧ byteLength before = a ∧
    a + 1 + byteLength inside = b ∧ Closes 0 inside

/-- In the text from byte `position` on, the parenthesis behind which `k` more are open is closed at
    byte `b`. -/
def ClosedAt (k position : Nat) (cs : List Char) (b : Nat) : Prop :=
  ∃ inside after, cs = inside ++ ')' :: after ∧ position + byteLength inside = b ∧ Closes k inside

/-- The partners in the text from byte `position` on. -/
def PartnersFrom (position : Nat) (cs : List Char) (a b : Nat) : Prop :=
  ∃ before rest, cs = before ++ '(' :: rest ∧ position + byteLength before = a ∧
    ClosedAt 0 (a + 1) rest b

theorem partners_iff_partnersFrom {cs : List Char} {a b : Nat} :
    Partners cs a b ↔ PartnersFrom 0 cs a b := by
  constructor
  · rintro ⟨before, inside, after, hcs, hopening, hclosing, hinside⟩
    exact ⟨before, _, hcs, (Nat.zero_add _).trans hopening, inside, after, rfl, hclosing, hinside⟩
  · rintro ⟨before, _, hcs, hopening, inside, after, rfl, hclosing, hinside⟩
    exact ⟨before, inside, after, hcs, (Nat.zero_add _).symm.trans hopening, hclosing, hinside⟩

section Character

variable {c : Char} {k position a b : Nat} {cs : List Char}

theorem not_closedAt_nil : ¬ ClosedAt k position [] b := by
  rintro ⟨inside, after, hcs, _⟩
  exact List.append_ne_nil_of_right_ne_nil inside (List.cons_ne_nil _ after) hcs.symm

/-- A character that does not close the parenthesis belongs to what stands in front of the one that does. -/
theorem closedAt_cons {m : Nat} (hopen : c = ')' → ¬ Closes k [])
    (hcloses : ∀ inside, Closes k (c :: inside) ↔ Closes m inside) :
    ClosedAt k position (c :: cs) b ↔ ClosedAt m (position + c.utf8Size) cs b := by
  constructor
  · rintro ⟨inside, after, hcs, hb, hinside⟩
    cases inside with
    | nil => exact absurd hinside (hopen (List.cons.inj hcs).1)
    | cons d inside =>
      obtain ⟨rfl, rfl⟩ := List.cons.inj hcs
      exact ⟨inside, after, rfl, by rw [← hb, byteLength_cons, Nat.add_assoc], (hcloses inside).mp hinside⟩
  · rintro ⟨inside, after, rfl, hb, hinside⟩
    exact ⟨c :: inside, after, rfl, by rw [← hb, byteLength_cons, Nat.add_assoc],
      (hcloses inside).mpr hinside⟩

theorem closedAt_other (h : isParen c = false) :
    ClosedAt k position (c :: cs) b ↔ ClosedAt k (position + c.utf8Size) cs b := by
  refine closedAt_cons (fun hc => ?_) fun _ => closes_other h
  exact absurd (hc ▸ h) (by decide)

theorem closedAt_opening :
    ClosedAt k position ('(' :: cs) b ↔ ClosedAt (k + 1) (position + 1) cs b :=
  closedAt_cons (fun hc => absurd hc (by decide)) fun _ => closes_opening

theorem closedAt_closing_succ :
    ClosedAt (k + 1) position (')' :: cs) b ↔ ClosedAt k (position + 1) cs b :=
  closedAt_cons (fun _ => mt closes_nil.mp (Nat.succ_ne_zero k)) fun _ => closes_closing_succ

/-- The parenthesis that was opened last is the one that is closed. -/
theorem closedAt_closing_zero : ClosedAt 0 position (')' :: cs) b ↔ b = position := by
  constructor
  · rintro ⟨inside, after, hcs, hb, hinside⟩
    cases inside with
    | nil => exact hb.symm
    | cons d inside =>
      obtain ⟨rfl, _⟩ := List.cons.inj hcs
      exact absurd hinside not_closes_closing_zero
  · rintro rfl
    exact ⟨[], cs, rfl, rfl, closes_nil.mpr rfl⟩

theorem not_partnersFrom_nil : ¬ PartnersFrom position [] a b := by
  rintro ⟨before, rest, hcs, _⟩
  exact List.append_ne_nil_of_right_ne_nil before (List.cons_ne_nil _ rest) hcs.symm

/-- Partners are the first character and the one that closes it, or stand behind it. -/
theorem partnersFrom_cons :
    PartnersFrom position (c :: cs) a b ↔
      (c = '(' ∧ a = position ∧ ClosedAt 0 (position + 1) cs b) ∨
        PartnersFrom (position + c.utf8Size) cs a b := by
  constructor
  · rintro ⟨before, rest, hcs, ha, hclosed⟩
    cases before with
    | nil =>
      obtain ⟨rfl, rfl⟩ := List.cons.inj hcs
      obtain rfl : position = a := ha
      exact .inl ⟨rfl, rfl, hclosed⟩
    | cons d before =>
      obtain ⟨rfl, rfl⟩ := List.cons.inj hcs
      exact .inr ⟨before, rest, rfl, by rw [← ha, byteLength_cons, Nat.add_assoc], hclosed⟩
  · rintro (⟨rfl, rfl, hclosed⟩ | ⟨before, rest, rfl, ha, hclosed⟩)
    · exact ⟨[], cs, rfl, rfl, hclosed⟩
    · exact ⟨c :: before, rest, rfl, by rw [← ha, byteLength_cons, Nat.add_assoc], hclosed⟩

theorem partnersFrom_opening :
    PartnersFrom position ('(' :: cs) a b ↔
      (a = position ∧ ClosedAt 0 (position + 1) cs b) ∨ PartnersFrom (position + 1) cs a b :=
  partnersFrom_cons.trans (or_congr_left (and_iff_right rfl))

theorem partnersFrom_of_ne (hne : c ≠ '(') :
    PartnersFrom position (c :: cs) a b ↔ PartnersFrom (position + c.utf8Size) cs a b :=
  partnersFrom_cons.trans (or_iff_right fun h => hne h.1)

end Character

/-! ## 3. The stack finds the partners -/

/-- **The pairs behind open parentheses**: those that these are closed in, and those of parentheses that
    open later. -/
theorem mem_pairs_pairingFrom_iff {stack : List Nat} {position : Nat} {cs : List Char} {a b : Nat} :
    (a, b) ∈ (pairingFrom stack position cs).pairs ↔
      (∃ k, stack[k]? = some a ∧ ClosedAt k position cs b) ∨ PartnersFrom position cs a b := by
  induction cs generalizing stack position with
  | nil =>
    refine iff_of_false nofun ?_
    rintro (⟨k, _, hclosed⟩ | hlater)
    · exact not_closedAt_nil hclosed
    · exact not_partnersFrom_nil hlater
  | cons c cs ih =>
    rcases paren_cases c with hc | rfl | rfl
    · have hne : c ≠ '(' := fun heq => absurd (heq ▸ hc) (by decide)
      rw [pairingFrom_other hc, ih, partnersFrom_of_ne hne]
      simp only [closedAt_other hc]
    · rw [pairingFrom_opening, ih, partnersFrom_opening, ← or_assoc]
      refine or_congr_left ?_
      -- the new one is on top of the stack, and the others are one further down
      constructor
      · rintro ⟨k, hk, hclosed⟩
        cases k with
        | zero => exact .inr ⟨(Option.some.inj hk).symm, hclosed⟩
        | succ k => exact .inl ⟨k, hk, closedAt_opening.mpr hclosed⟩
      · rintro (⟨k, hk, hclosed⟩ | ⟨rfl, hclosed⟩)
        · exact ⟨k + 1, hk, closedAt_opening.mp hclosed⟩
        · exact ⟨0, rfl, hclosed⟩
    · rw [partnersFrom_of_ne (by decide)]
      cases stack with
      | nil =>
        rw [pairingFrom_closing_nil, ih]
        refine or_congr_left (iff_of_false ?_ ?_) <;> simp
      | cons opening outer =>
        rw [pairingFrom_closing_cons, List.mem_cons, ih, ← or_assoc]
        refine or_congr_left ?_
        constructor
        · rintro (hpair | ⟨k, hk, hclosed⟩)
          · obtain ⟨rfl, rfl⟩ := Prod.mk.inj hpair
            exact ⟨0, rfl, closedAt_closing_zero.mpr rfl⟩
          · exact ⟨k + 1, hk, closedAt_closing_succ.mpr hclosed⟩
        · rintro ⟨k, hk, hclosed⟩
          cases k with
          | zero =>
            obtain rfl := closedAt_closing_zero.mp hclosed
            obtain rfl := Option.some.inj hk
            exact .inl rfl
          | succ k => exact .inr ⟨k, hk, closedAt_closing_succ.mp hclosed⟩

/-- **The pairs of a line are its partners.** -/
theorem mem_pairs_pairing_iff_partners {cs : List Char} {a b : Nat} :
    (a, b) ∈ (pairing cs).pairs ↔ Partners cs a b := by
  rw [pairing, mem_pairs_pairingFrom_iff, partners_iff_partnersFrom]
  refine or_iff_right ?_
  rintro ⟨k, hk, _⟩
  cases hk

instance (cs : List Char) (a b : Nat) : Decidable (Partners cs a b) :=
  decidable_of_iff _ mem_pairs_pairing_iff_partners

/-- A parenthesis that closes nothing is nobody's partner, and parts nobody from theirs. -/
example : Partners ")(é)(".toList 1 4 ∧ ¬ Partners ")(é)(".toList 0 4 := by decide

/-- Partners are different places. -/
theorem Partners.lt {cs : List Char} {a b : Nat} (h : Partners cs a b) : a < b := by
  obtain ⟨_, _, _, _, _, rfl, _⟩ := h
  omega

/-- Where partners stand are an opening parenthesis and a closing one. -/
theorem Partners.exists_parens {cs : List Char} {a b : Nat} (h : Partners cs a b) :
    (∃ before after, cs = before ++ '(' :: after ∧ byteLength before = a) ∧
      ∃ before after, cs = before ++ ')' :: after ∧ byteLength before = b := by
  obtain ⟨before, inside, after, rfl, rfl, rfl, _⟩ := h
  refine ⟨⟨before, _, rfl, rfl⟩, before ++ '(' :: inside, after, ?_, ?_⟩
  · rw [List.append_assoc]
    rfl
  · rw [byteLength_append, byteLength_cons, Nat.add_assoc]
    rfl

/-! ## 4. What is left over -/

/-- What is left over comes from here on. -/
theorem le_of_mem_unmatched {stack : List Nat} {position : Nat} {cs : List Char} {i : Nat}
    (h : i ∈ (pairingFrom stack position cs).unmatched) : position ≤ i :=
  (selects_of_mem_unmatched h).start_le

/-- What is left over is in no pair. -/
theorem notMem_places_of_mem_unmatched {stack : List Nat} {position : Nat}
    (hbefore : ∀ i ∈ stack, i < position) {cs : List Char} {i : Nat}
    (h : i ∈ (pairingFrom stack position cs).unmatched) :
    i ∉ (pairingFrom stack position cs).places := by
  induction cs generalizing stack position with
  | nil => exact nofun
  | cons c cs ih =>
    rcases paren_cases c with hc | rfl | rfl
    · rw [pairingFrom_other hc] at h ⊢
      exact ih (fun i hi => Nat.lt_add_right c.utf8Size (hbefore i hi)) h
    · refine ih (List.forall_mem_cons.mpr ⟨Nat.lt_succ_self _, fun i hi => ?_⟩) h
      exact Nat.lt_succ_of_lt (hbefore i hi)
    · cases stack with
      | nil =>
        have hnone : ∀ i ∈ ([] : List Nat), i < position + 1 := nofun
        rcases List.mem_cons.mp h with rfl | h
        · intro hmem
          rcases (nodup_places_pairingFrom .nil hnone cs).2 _ hmem with hstack | hle
          · cases hstack
          · exact Nat.not_succ_le_self _ hle
        · exact ih hnone h
      | cons opening outer =>
        obtain ⟨hopening, houter⟩ := List.forall_mem_cons.mp hbefore
        have hle : position + 1 ≤ i := le_of_mem_unmatched h
        have hrest := ih (fun i hi => Nat.lt_succ_of_lt (houter i hi)) h
        show i ∉ opening :: position :: (pairingFrom outer (position + 1) cs).places
        rw [List.mem_cons, List.mem_cons, not_or, not_or]
        exact ⟨by omega, by omega, hrest⟩

/-- A closing parenthesis is left over or closes a pair. -/
theorem mem_unmatched_or_closes (stack : List Nat) (position : Nat) (before after : List Char) :
    position + byteLength before ∈ (pairingFrom stack position (before ++ ')' :: after)).unmatched ∨
      ∃ a, (a, position + byteLength before) ∈ (pairingFrom stack position (before ++ ')' :: after)).pairs := by
  induction before generalizing stack position with
  | nil =>
    cases stack with
    | nil => exact .inl List.mem_cons_self
    | cons opening outer => exact .inr ⟨opening, List.mem_cons_self⟩
  | cons c before ih =>
    rw [byteLength_cons, ← Nat.add_assoc, List.cons_append]
    rcases paren_cases c with hc | rfl | rfl
    · rw [pairingFrom_other hc]
      exact ih stack _
    · exact ih (position :: stack) (position + 1)
    · cases stack with
      | nil => exact (ih [] (position + 1)).imp_left (List.mem_cons_of_mem position)
      | cons opening outer =>
        exact (ih outer (position + 1)).imp_right fun ⟨a, ha⟩ => ⟨a, List.mem_cons_of_mem _ ha⟩

/-- **Left over are the closing parentheses that are nobody's partner.** -/
theorem mem_unmatched_iff {cs : List Char} {i : Nat} :
    i ∈ (pairing cs).unmatched ↔
      (∃ before after, cs = before ++ ')' :: after ∧ byteLength before = i) ∧ ∀ a, ¬ Partners cs a i := by
  constructor
  · intro h
    obtain ⟨before, after, hcs, hi, _⟩ := selects_of_mem_unmatched h
    refine ⟨⟨before, after, ?_, ?_⟩, fun a hpartners => ?_⟩
    · rw [hcs, List.append_assoc]
      rfl
    · rw [Nat.zero_add] at hi
      exact hi.symm
    · have hpair := mem_pairs_pairing_iff_partners.mpr hpartners
      have hnone : ∀ i ∈ ([] : List Nat), i < 0 := nofun
      refine notMem_places_of_mem_unmatched hnone h (List.mem_flatMap.mpr ⟨_, hpair, ?_⟩)
      exact List.mem_cons_of_mem _ List.mem_cons_self
  · rintro ⟨⟨before, after, rfl, rfl⟩, hnone⟩
    have hcases := mem_unmatched_or_closes [] 0 before after
    rw [Nat.zero_add] at hcases
    refine hcases.resolve_right fun ⟨a, ha⟩ => hnone a ?_
    exact mem_pairs_pairing_iff_partners.mp ha

end MiniLisp
