import MiniLisp.Proofs.Bare
import MiniLisp.Proofs.Numbers
import MiniLisp.Proofs.Reading
import MiniLisp.Proofs.Seams

/-!
# Printing: what is written reads back

What a text reads as can be written, and what is written reads as the same again. This file fixes:

* `Node.Readable`: the nodes that have a written form. There are no procedures in them, numbers are
  finite, and the name of a symbol is what an atom can be that is no number;
* `readable_of_spells`: all that is read is readable;
* `exists_spells_text`: the tokens of what a readable node is written as spell that node, whatever
  its places are;
* **`text_read_inverse`**: writing and reading undo each other.
-/

namespace MiniLisp

variable {ω : Type}

/-! ## 1. Readable nodes -/

/-- A node that has a written form which reads as that node. -/
inductive Node.Readable : Node ω → Prop
  | symbol (name : String) (span : Span) (nonempty : name ≠ "")
      (chars : ∀ c ∈ name.toList, c ∉ [' ', '\t', '\n', '\r', '\x0c', '(', ')'])
      (kind : (Node.ofAtom name span : Node ω).kind ≠ .number) : Readable (.symbol name span)
  | number (value : Float) (span : Span) (finite : value.isFinite = true) :
      Readable (.number value span)
  | list (items : List (Node ω)) (span : Span) (all : ∀ n ∈ items, Readable n) :
      Readable (.list items span)

/-- An atom that is no number is a symbol. -/
theorem Node.ofAtom_eq_symbol {name : String} {span : Span}
    (h : (Node.ofAtom name span : Node ω).kind ≠ .number) (place : Span) :
    (Node.ofAtom name place : Node ω) = .symbol name place := by
  unfold Node.ofAtom at h ⊢
  cases hx : Number.finite? name with
  | none => rfl
  | some x =>
    rw [hx] at h
    exact absurd rfl h

/-- What an atom reads as is readable. -/
theorem Node.readable_ofAtom {text : String} (hne : text.toList ≠ [])
    (hchars : ∀ c ∈ text.toList, c ∉ [' ', '\t', '\n', '\r', '\x0c', '(', ')']) (span : Span) :
    (Node.ofAtom text span : Node ω).Readable := by
  cases hx : Number.finite? text with
  | none =>
    have hatom : (Node.ofAtom text span : Node ω) = .symbol text span := by
      unfold Node.ofAtom
      rw [hx]
    rw [hatom]
    refine .symbol text span (fun hempty => hne (String.toList_eq_nil_iff.mpr hempty)) hchars ?_
    rw [hatom]
    exact nofun
  | some x =>
    have hatom : (Node.ofAtom text span : Node ω) = .number x span := by
      unfold Node.ofAtom
      rw [hx]
    rw [hatom]
    exact .number x span (Number.isFinite_of_finite? hx)

/-! ## 2. What is read -/

/-- **All that is read from a cut is readable.** -/
theorem readable_of_spells {start : Nat} {cs : List Char} {ts us : List Token}
    (hcut : Cut start cs ts) {forms : List (Node ω)} (h : Spells forms us) (hsub : us ⊆ ts) :
    ∀ n ∈ forms, n.Readable := by
  induction h with
  | nil => exact nofun
  | atom text span _ ih =>
    obtain ⟨hmem, hrest⟩ := List.cons_subset.mp hsub
    have hfirst : (Node.ofAtom text span : Node ω).Readable :=
      Node.readable_ofAtom (hcut.toList_text_ne_nil hmem) (hcut.atoms _ hmem text rfl) span
    exact List.forall_mem_cons.mpr ⟨hfirst, ih hrest⟩
  | list opening closing _ _ ihi ihr =>
    obtain ⟨_, hbehind⟩ := List.cons_subset.mp hsub
    obtain ⟨hinside, hclose⟩ := List.append_subset.mp hbehind
    obtain ⟨_, hrest⟩ := List.cons_subset.mp hclose
    exact List.forall_mem_cons.mpr ⟨.list _ _ (ihi hinside), ihr hrest⟩

/-! ## 3. What is written -/

theorem isAtomChar_of_isDigit {c : Char} (h : c.isDigit = true) : isAtomChar c = true := by
  obtain hsep | rfl | rfl | hatom := char_cases c
  · have hmem := isSeparator_iff.mp hsep
    simp only [List.mem_cons, List.not_mem_nil, or_false] at hmem
    obtain rfl | rfl | rfl | rfl | rfl := hmem <;> cases h
  · cases h
  · cases h
  · exact hatom

/-- The text of a finite number is an atom. -/
theorem isAtomChar_of_mem_text {x : Float} (h : x.isFinite = true) {c : Char}
    (hc : c ∈ (Number.text x).toList) : isAtomChar c = true := by
  obtain hdigit | rfl | rfl := Number.isDigit_of_mem_text h hc
  · exact isAtomChar_of_isDigit hdigit
  · rfl
  · rfl

/-- The characters of an atom are spelled by the node of the atom. -/
theorem spells_atom {text : String} (hne : text.toList ≠ [])
    (h : ∀ c ∈ text.toList, isAtomChar c = true) (start : Nat) :
    Spells [(Node.ofAtom text ⟨start, start + byteLength text.toList⟩ : Node ω)]
      (tokensFrom start text.toList) := by
  rw [tokensFrom_atom hne h, String.ofList_toList]
  exact .atom text _ .nil

/-- From an opening parenthesis to a closing one behind `n` bytes. -/
theorem Span.merge_parens (start n : Nat) :
    Span.merge ⟨start, start + 1⟩ ⟨start + 1 + n, start + 1 + n + 1⟩ = ⟨start, start + 1 + n + 1⟩ := by
  refine Span.merge_of_le ?_ ?_
  · show start ≤ start + 1 + n
    omega
  · show start + 1 ≤ start + 1 + n + 1
    omega

/-- What stands in parentheses is spelled by one list, which reaches over both of them. -/
theorem spells_parens {forms : List (Node ω)} {inside : List Char} {start : Nat}
    (h : Spells forms (tokensFrom (start + 1) inside)) :
    Spells [.list forms ⟨start, start + 1 + byteLength inside + 1⟩]
      (tokensFrom start ('(' :: (inside ++ [')']))) := by
  rw [tokensFrom_parens, ← Span.merge_parens]
  exact .list _ _ h .nil

/-- Items with blanks between them are spelled item by item. -/
theorem exists_spells_intercalate {items : List (Node ω)}
    (h : ∀ n ∈ items, ∀ start, ∃ m, Spells [m] (tokensFrom start n.text.toList) ∧ m.bare = n.bare)
    (start : Nat) :
    ∃ forms, Spells forms (tokensFrom start (" ".intercalate (items.map Node.text)).toList) ∧
      forms.map Node.bare = items.map Node.bare := by
  induction items generalizing start with
  | nil => exact ⟨[], .nil, rfl⟩
  | cons n items ih =>
    obtain ⟨hfirst, hrest⟩ := List.forall_mem_cons.mp h
    obtain ⟨m, hm, hbare⟩ := hfirst start
    cases items with
    | nil =>
      refine ⟨[m], ?_, congrArg (fun b => [b]) hbare⟩
      rw [List.map_singleton, String.intercalate_singleton]
      exact hm
    | cons k items =>
      have htext : (" ".intercalate ((n :: k :: items).map Node.text)).toList =
          n.text.toList ++ ' ' :: (" ".intercalate ((k :: items).map Node.text)).toList := by
        rw [List.map_cons, List.map_cons, String.intercalate_cons_cons, String.toList_append,
          String.toList_append, List.append_assoc]
        rfl
      obtain ⟨forms, hforms, hbares⟩ := ih hrest (start + byteLength n.text.toList + 1)
      refine ⟨m :: forms, ?_, ?_⟩
      · rw [htext, tokensFrom_append (parted_of_head rfl), tokensFrom_cons, glue_separator rfl]
        exact hm.append hforms
      · rw [List.map_cons, List.map_cons (l := k :: items), hbare, hbares]

/-- **The tokens of what a readable node is written as spell that node.** -/
theorem exists_spells_text {n : Node ω} (h : n.Readable) (start : Nat) :
    ∃ m, Spells [m] (tokensFrom start n.text.toList) ∧ m.bare = n.bare := by
  induction h generalizing start with
  | symbol name span hne hchars hkind =>
    have hne' : name.toList ≠ [] := fun hnil => hne (String.toList_eq_nil_iff.mp hnil)
    have hatom : ∀ c ∈ name.toList, isAtomChar c = true :=
      fun c hc => isAtomChar_iff.mpr (hchars c hc)
    refine ⟨_, spells_atom hne' hatom start, ?_⟩
    rw [Node.ofAtom_eq_symbol hkind]
    rfl
  | number x span hfinite =>
    refine ⟨_, spells_atom (Number.toList_text_ne_nil hfinite)
      (fun c hc => isAtomChar_of_mem_text hfinite hc) start, ?_⟩
    unfold Node.ofAtom
    rw [Number.finite?_text hfinite]
    rfl
  | list items span _ ih =>
    obtain ⟨forms, hforms, hbares⟩ := exists_spells_intercalate ih (start + 1)
    have htext : (Node.list items span).text.toList =
        '(' :: ((" ".intercalate (items.map Node.text)).toList ++ [')']) := by
      rw [Node.text, Node.texts_eq_map, String.toList_append, String.toList_append]
      rfl
    have hlist := spells_parens hforms
    rw [← htext] at hlist
    refine ⟨_, hlist, ?_⟩
    rw [Node.bare, Node.bare, Node.bares_eq_map, Node.bares_eq_map, hbares]

/-! ## 4. Writing and reading -/

/-- **Writing and reading undo each other.** Whatever is read from a text is readable; what a
    readable node is written as reads as one form, that node apart from its places; and what was
    read from a text is written as a text that reads as something written alike. -/
theorem text_read_inverse :
    (∀ (text : String) (n : Node ω), readText text = .ok n → n.Readable) ∧
    (∀ (text : String) (forms : List (Node ω)), readAll (tokenize text) = .ok forms →
      ∀ n ∈ forms, n.Readable) ∧
    (∀ n : Node ω, n.Readable →
      ∃ m : Node ω, readAll (tokenize n.text) = .ok [m] ∧ m.bare = n.bare) ∧
    (∀ (text : String) (n : Node ω), readText text = .ok n →
      ∃ m : Node ω, readText n.text = .ok m ∧ m.text = n.text) := by
  have hread : ∀ (text : String) (n : Node ω), readText text = .ok n → n.Readable := by
    intro text n h
    obtain ⟨p, hp, _, hs⟩ := readOne_eq_ok (Prod.ext h rfl)
    have hsub : p ⊆ tokenize text := by
      rw [hp]
      exact List.subset_append_left _ _
    exact readable_of_spells (cut_tokensFrom 0 text.toList) hs hsub n List.mem_cons_self
  have hwrite : ∀ n : Node ω, n.Readable →
      ∃ m, Spells [m] (tokenize n.text) ∧ m.bare = n.bare := fun n h => exists_spells_text h 0
  refine ⟨hread, ?_, ?_, ?_⟩
  · intro text forms h
    exact readable_of_spells (cut_tokensFrom 0 text.toList) (readAll_eq_ok_iff.mp h)
      (List.Subset.refl _)
  · intro n h
    obtain ⟨m, hm, hbare⟩ := hwrite n h
    exact ⟨m, readAll_of_spells hm, hbare⟩
  · intro text n h
    obtain ⟨m, hm, hbare⟩ := hwrite n (hread text n h)
    have hone := readOne_of_spells hm []
    rw [List.append_nil] at hone
    exact ⟨m, congrArg Prod.fst hone, Node.text_eq_of_bare_eq hbare⟩

end MiniLisp
