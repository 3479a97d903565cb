import MiniLisp.Proofs.Runs

/-!
# Meeting: the tokens of two texts written one behind the other

The tokens of a text do not depend on what stands in front of it or behind it, but for an atom at its edge. This
file fixes what becomes of that atom:

* `StandApart`: one of two texts is empty, or a parenthesis or a separator stands where they meet. Then no atom
  runs on from the one into the other (`standApart_iff_parted`), and the tokens are those of both;
* `exists_runs`: else the first ends in a longest run of an atom's characters and the second begins with one;
* **`tokenize_append`**: the result. These two runs become one token, and **nothing else changes**, but for the
  places of the second text.
-/

namespace MiniLisp

/-- One of the texts is empty, or a character that belongs to no atom stands where they meet. -/
def StandApart (a b : String) : Prop :=
  a = "" ∨ b = "" ∨ (∃ c ∈ a.toList.getLast?, c ∈ [' ', '\t', '\n', '\r', '\x0c', '(', ')']) ∨
    ∃ d ∈ b.toList.head?, d ∈ [' ', '\t', '\n', '\r', '\x0c', '(', ')']

/-- **Texts stand apart where no atom runs on from the one into the other.** -/
theorem standApart_iff_parted {a b : String} : StandApart a b ↔ Parted a.toList b.toList := by
  constructor
  · intro h
    rcases h with rfl | rfl | ⟨c, hc, hchar⟩ | ⟨d, hd, hchar⟩
    · intro _ hc
      cases hc
    · intro _ _ _ hd
      cases hd
    · intro e he _ _ hatom
      obtain rfl := Option.mem_unique hc he
      rw [isAtomChar_eq_false_iff.mpr hchar] at hatom
      cases hatom
    · intro _ _ e he _
      obtain rfl := Option.mem_unique hd he
      exact isAtomChar_eq_false_iff.mpr hchar
  · intro h
    cases hlast : a.toList.getLast? with
    | none => exact .inl (String.toList_eq_nil_iff.mp (List.getLast?_eq_none_iff.mp hlast))
    | some c =>
      cases hhead : b.toList.head? with
      | none => exact .inr (.inl (String.toList_eq_nil_iff.mp (List.head?_eq_none_iff.mp hhead)))
      | some d =>
        by_cases hatom : isAtomChar c = true
        · exact .inr (.inr (.inr ⟨d, hhead, isAtomChar_eq_false_iff.mp (h c hlast d hhead hatom)⟩))
        · exact .inr (.inr (.inl ⟨c, hlast, isAtomChar_eq_false_iff.mp (Bool.eq_false_iff.mpr hatom)⟩))

/-- Where an atom runs on, a longest run ends the first text and a longest run begins the second. -/
theorem exists_runs {as bs : List Char} (h : ¬ Parted as bs) :
    ∃ front left right back, as = front ++ left ∧ bs = right ++ back ∧
      (left ≠ [] ∧ ∀ c ∈ left, isAtomChar c = true) ∧ (right ≠ [] ∧ ∀ c ∈ right, isAtomChar c = true) ∧
      (∀ c ∈ front.getLast?, isAtomChar c = false) ∧ ∀ d ∈ back.head?, isAtomChar d = false := by
  obtain ⟨c, hc, d, hd, hcatom, hdatom⟩ :
      ∃ c ∈ as.getLast?, ∃ d ∈ bs.head?, isAtomChar c = true ∧ isAtomChar d = true := by
    refine Classical.byContradiction fun hno => h fun c hc d hd hatom => ?_
    exact Bool.eq_false_iff.mpr fun hdatom => hno ⟨c, hc, d, hd, hatom, hdatom⟩
  obtain ⟨front, left, hleft, hlne, hlrun, hfront⟩ := exists_last_run hc hcatom
  cases bs with
  | nil => cases hd
  | cons b bs =>
    cases hd
    obtain ⟨right, back, hright, hrne, hrrun, hback⟩ := exists_first_run hdatom bs
    exact ⟨front, left, right, back, hleft, hright, ⟨hlne, hlrun⟩, ⟨hrne, hrrun⟩, hfront, hback⟩

/-- **The tokens of two texts, one behind the other.** If one of them is empty, or a parenthesis or a separator
    stands where they meet, they are the tokens of the first and those of the second, moved by the bytes of the
    first. Else the first text ends in an atom and the second begins with one, and these two are one atom, from
    where the first begins to where the second ends; all others are as in the other case. -/
theorem tokenize_append (a b : String) :
    (StandApart a b → tokenize (a ++ b) = tokenize a ++ (tokenize b).map (·.shift a.utf8ByteSize)) ∧
    (¬ StandApart a b → ∃ front left s right t back,
      tokenize a = front ++ [⟨.atom left, s⟩] ∧ tokenize b = ⟨.atom right, t⟩ :: back ∧
      tokenize (a ++ b) = front ++ ⟨.atom (left ++ right), ⟨s.start, t.stop + a.utf8ByteSize⟩⟩ ::
        back.map (·.shift a.utf8ByteSize)) := by
  rw [← byteLength_toList]
  constructor
  · intro h
    rw [tokenize, String.toList_append, tokensFrom_append (standApart_iff_parted.mp h), tokensFrom_add]
    rfl
  · intro h
    obtain ⟨front, left, right, back, ha, hb, ⟨hlne, hleft⟩, ⟨hrne, hright⟩, hfront, hback⟩ :=
      exists_runs fun hparted => h (standApart_iff_parted.mpr hparted)
    have hfused : ∀ c ∈ left ++ right, isAtomChar c = true := List.forall_mem_append.mpr ⟨hleft, hright⟩
    have hone := tokensFrom_last_run hfront hlne hleft 0
    have hother := tokensFrom_first_run hrne hright hback 0
    have hboth := tokensFrom_run hfront (List.append_ne_nil_of_left_ne_nil hlne right) hfused hback 0
    have hmoved := tokensFrom_add (byteLength right) (byteLength (front ++ left)) back
    let first := byteLength front
    refine ⟨tokensFrom 0 front, String.ofList left, ⟨first, first + byteLength left⟩, String.ofList right,
      ⟨0, byteLength right⟩, tokensFrom (byteLength right) back, ?_, ?_, ?_⟩
    · rw [tokenize, ha, hone, Nat.zero_add]
    · rw [tokenize, hb, hother, Nat.zero_add]
    · have hstop : first + byteLength (left ++ right) = byteLength right + byteLength (front ++ left) := by
        rw [byteLength_append, byteLength_append]
        omega
      rw [tokenize, String.toList_append, ha, hb, List.append_assoc, ← List.append_assoc left, hboth,
        Nat.zero_add, hstop, hmoved, String.ofList_append]

/-- Two atoms become one; the parentheses stay what they are. -/
example : tokenize ("(é" ++ "é)") = [⟨.opening, ⟨0, 1⟩⟩, ⟨.atom "éé", ⟨1, 5⟩⟩, ⟨.closing, ⟨5, 6⟩⟩] := by decide

end MiniLisp
