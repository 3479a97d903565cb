import MiniLisp.Proofs.Moving
import MiniLisp.Proofs.Printing

/-!
# Slices: what a node takes up of its text

A node has the span of the characters it was read from. This file fixes what these characters are:

* `exists_tokensFrom_eq_cons`, `exists_tokensFrom_eq_append`: where tokens are parted, the characters
  are parted too;
* `Node.Fills`: characters that are those of one node, from the first to the last. A form takes up
  such a part of what it is read from (`exists_fills`);
* `Node.Inside`, `Node.Stands`: every node inside of one that stands in a text stands in it too
  (`Node.Inside.stands`);
* `Spread`: nodes that take up characters in order, with nothing but separators outside of them;
* **`slice_reads_node`**: every node read from a text is read again from its slice alone, and the
  items of a list are spread between its parentheses, as the forms are in the whole text.
-/

namespace MiniLisp

variable {ω : Type}

/-! ## 1. The first tokens -/

/-- Nothing but separators has no tokens. -/
theorem tokensFrom_separators {cs : List Char} (h : ∀ c ∈ cs, isSeparator c = true) (start : Nat) :
    tokensFrom start cs = [] := by
  induction cs generalizing start with
  | nil => rfl
  | cons c cs ih =>
    obtain ⟨hc, hcs⟩ := List.forall_mem_cons.mp h
    rw [tokensFrom_cons, glue_separator hc, ih hcs]

theorem parted_of_separators_left {as bs : List Char} (h : ∀ c ∈ as, isSeparator c = true) :
    Parted as bs := by
  intro c hc _ _ hatom
  have hsep := h c (List.mem_of_getLast? hc)
  rw [(isAtomChar_iff_not.mp hatom).1] at hsep
  cases hsep

theorem parted_of_separators_right {as bs : List Char} (h : ∀ c ∈ bs, isSeparator c = true) :
    Parted as bs := by
  intro _ _ d hd _
  have hsep := h d (List.mem_of_head? hd)
  simp [isAtomChar, hsep]

theorem parted_singleton {c : Char} (h : isAtomChar c = false) (cs : List Char) : Parted [c] cs := by
  intro d hd _ _ hatom
  obtain rfl : c = d := Option.some.inj hd
  rw [h] at hatom
  cases hatom

/-- The characters of an atom up to the first that belongs to none. -/
theorem parted_takeWhile (c : Char) (cs : List Char) :
    Parted (c :: cs.takeWhile isAtomChar) (cs.dropWhile isAtomChar) := by
  intro _ _ d hd _
  have hne := List.head?_dropWhile_not isAtomChar cs
  rw [Option.mem_def.mp hd] at hne
  exact hne

/-- **The first token stands behind separators**, and the others are those of what stands behind it. -/
theorem exists_tokensFrom_eq_cons {start : Nat} {cs : List Char} {t : Token} {ts : List Token}
    (h : tokensFrom start cs = t :: ts) :
    ∃ blanks rest, cs = blanks ++ (t.text.toList ++ rest) ∧ (∀ c ∈ blanks, isSeparator c = true) ∧
      t.span.start = start + byteLength blanks ∧
      t.span.stop = t.span.start + byteLength t.text.toList ∧
      tokensFrom t.span.start t.text.toList = [t] ∧ Parted t.text.toList rest ∧
      tokensFrom t.span.stop rest = ts := by
  induction cs generalizing start with
  | nil => cases h
  | cons c cs ih =>
    obtain hsep | rfl | rfl | hatom := char_cases c
    · rw [tokensFrom_cons, glue_separator hsep] at h
      obtain ⟨blanks, rest, rfl, hblanks, hstart, hrest⟩ := ih h
      refine ⟨c :: blanks, rest, rfl, List.forall_mem_cons.mpr ⟨hsep, hblanks⟩, ?_, hrest⟩
      rw [hstart, byteLength_cons, Nat.add_assoc]
    · rw [tokensFrom_cons, glue_opening] at h
      cases h
      have htext : (Token.text ⟨.opening, ⟨start, start + 1⟩⟩).toList = ['('] :=
        Lexeme.toList_text_opening
      rw [htext]
      exact ⟨[], cs, rfl, nofun, rfl, rfl, rfl, parted_singleton rfl cs, rfl⟩
    · rw [tokensFrom_cons, glue_closing] at h
      cases h
      have htext : (Token.text ⟨.closing, ⟨start, start + 1⟩⟩).toList = [')'] :=
        Lexeme.toList_text_closing
      rw [htext]
      exact ⟨[], cs, rfl, nofun, rfl, rfl, rfl, parted_singleton rfl cs, rfl⟩
    · -- the token is the longest run of an atom's characters
      have hparted := parted_takeWhile c cs
      have hsplit : c :: cs = (c :: cs.takeWhile isAtomChar) ++ cs.dropWhile isAtomChar := by
        rw [List.cons_append, List.takeWhile_append_dropWhile]
      have hrun : ∀ d ∈ c :: cs.takeWhile isAtomChar, isAtomChar d = true :=
        List.forall_mem_cons.mpr ⟨hatom, List.all_eq_true.mp List.all_takeWhile⟩
      have htoken := tokensFrom_atom (List.cons_ne_nil c (cs.takeWhile isAtomChar)) hrun start
      rw [hsplit, tokensFrom_append hparted, htoken] at h
      cases h
      have htext : (Token.text ⟨.atom (String.ofList (c :: cs.takeWhile isAtomChar)),
          ⟨start, start + byteLength (c :: cs.takeWhile isAtomChar)⟩⟩).toList =
          c :: cs.takeWhile isAtomChar := String.toList_ofList
      rw [htext]
      exact ⟨[], cs.dropWhile isAtomChar, hsplit, nofun, rfl, rfl, htoken, hparted, rfl⟩

/-- A parenthesis stands where its character does. -/
theorem exists_tokensFrom_eq_paren {start : Nat} {cs : List Char} {l : Lexeme} {s : Span} {c : Char}
    {ts : List Token} (hl : l.text.toList = [c]) (hsize : c.utf8Size = 1)
    (h : tokensFrom start cs = ⟨l, s⟩ :: ts) :
    ∃ blanks rest, cs = blanks ++ c :: rest ∧ (∀ d ∈ blanks, isSeparator d = true) ∧
      s = ⟨start + byteLength blanks, start + byteLength blanks + 1⟩ ∧
      tokensFrom (start + byteLength blanks + 1) rest = ts := by
  obtain ⟨blanks, rest, rfl, hblanks, hstart, hstop, _, _, hrest⟩ := exists_tokensFrom_eq_cons h
  have htext : (Token.mk l s).text.toList = [c] := hl
  rw [htext, byteLength_cons, byteLength_nil, Nat.add_zero, hsize] at hstop
  rw [hstop, hstart] at hrest
  rw [htext]
  refine ⟨blanks, rest, rfl, hblanks, ?_, hrest⟩
  rw [← hstart, ← hstop]

/-- **Tokens in two parts come from characters in two parts.** -/
theorem exists_tokensFrom_eq_append {start : Nat} {cs : List Char} {ts us : List Token}
    (h : tokensFrom start cs = ts ++ us) :
    ∃ front back, cs = front ++ back ∧ tokensFrom start front = ts ∧
      tokensFrom (start + byteLength front) back = us := by
  induction ts generalizing start cs with
  | nil => exact ⟨[], cs, rfl, rfl, h⟩
  | cons t ts ih =>
    obtain ⟨blanks, rest, rfl, hblanks, hstart, hstop, htoken, hparted, hrest⟩ :=
      exists_tokensFrom_eq_cons h
    obtain ⟨front, back, rfl, hfront, hback⟩ := ih hrest
    refine ⟨blanks ++ (t.text.toList ++ front), back, by simp only [List.append_assoc], ?_, ?_⟩
    · rw [tokensFrom_append (parted_of_separators_left hblanks), tokensFrom_separators hblanks, ← hstart,
        tokensFrom_append hparted.of_append, htoken, ← hstop, hfront]
      rfl
    · rw [byteLength_append, byteLength_append, ← hback, hstop, hstart]
      simp only [Nat.add_assoc]

/-! ## 2. One form -/

theorem add_byteLength_parens (start : Nat) (inside : List Char) :
    start + byteLength ('(' :: (inside ++ [')'])) = start + 1 + byteLength inside + 1 := by
  rw [byteLength_cons, byteLength_append, ← Nat.add_assoc, ← Nat.add_assoc]
  rfl

/-- The characters that begin at byte `start` are those of the node: of its atom, or of its two
    parentheses and what its items are read from. -/
inductive Node.Fills (start : Nat) : List Char → Node ω → Prop
  | atom (text : String) (nonempty : text.toList ≠ [])
      (token : tokensFrom start text.toList =
        [⟨.atom text, ⟨start, start + byteLength text.toList⟩⟩]) :
      Fills start text.toList (.ofAtom text ⟨start, start + byteLength text.toList⟩)
  | list (inside : List Char) {items : List (Node ω)}
      (read : Spells items (tokensFrom (start + 1) inside)) :
      Fills start ('(' :: (inside ++ [')'])) (.list items ⟨start, start + 1 + byteLength inside + 1⟩)

namespace Node.Fills

variable {start : Nat} {part : List Char} {n : Node ω}

theorem ne_nil (h : n.Fills start part) : part ≠ [] := by
  cases h with
  | atom text nonempty token => exact nonempty
  | list inside read => exact List.cons_ne_nil _ _

/-- The node reaches from the first character to the last. -/
theorem span_eq (h : n.Fills start part) : n.span = ⟨start, start + byteLength part⟩ := by
  cases h with
  | atom text nonempty token => exact Node.span_ofAtom text _
  | list inside read =>
    rw [add_byteLength_parens]
    rfl

/-- The characters of a node are read as this node. -/
theorem spells (h : n.Fills start part) : Spells [n] (tokensFrom start part) := by
  cases h with
  | atom text nonempty token =>
    rw [token]
    exact .atom text _ .nil
  | list inside read => exact spells_parens read

/-- A list has its items between its two parentheses. -/
theorem exists_inside {items : List (Node ω)} {span : Span}
    (h : (Node.list items span).Fills start part) :
    ∃ inside, part = '(' :: (inside ++ [')']) ∧ Spells items (tokensFrom (start + 1) inside) := by
  generalize hm : Node.list items span = m at h
  cases h with
  | atom text nonempty token => exact absurd hm.symm (Node.ofAtom_ne_list text _ span items)
  | list inside read =>
    cases hm
    exact ⟨inside, rfl, read⟩

/-- A symbol is its name. -/
theorem eq_name {name : String} {span : Span} (h : (Node.symbol name span : Node ω).Fills start part) :
    part = name.toList := by
  generalize hm : (Node.symbol name span : Node ω) = m at h
  cases h with
  | atom text nonempty token =>
    unfold Node.ofAtom at hm
    split at hm
    · cases hm
    · cases hm
      rfl
  | list inside read => cases hm

end Node.Fills

/-- **A form takes up a part of the characters it is read from**, and the other forms are read from
    what is behind. -/
theorem exists_fills {start : Nat} {cs : List Char} {n : Node ω} {p us : List Token}
    (hn : Spells [n] p) (h : tokensFrom start cs = p ++ us) :
    ∃ blanks part back, cs = blanks ++ (part ++ back) ∧ n.Fills (start + byteLength blanks) part ∧
      tokensFrom (start + byteLength blanks) part = p ∧
      tokensFrom (start + byteLength blanks + byteLength part) back = us := by
  cases hn with
  | atom text s hnil =>
    cases hnil
    obtain ⟨blanks, rest, hcs, _, hstart, hstop, htoken, _, hrest⟩ := exists_tokensFrom_eq_cons h
    have hne : (Token.mk (.atom text) s).text.toList ≠ [] :=
      (cut_tokensFrom start cs).toList_text_ne_nil (h ▸ List.mem_cons_self)
    obtain ⟨first, last⟩ := s
    obtain rfl : first = start + byteLength blanks := hstart
    obtain rfl : last = start + byteLength blanks + byteLength text.toList := hstop
    exact ⟨blanks, text.toList, rest, hcs, .atom text hne htoken, htoken, hrest⟩
  | @list o c items _ inner _ inside hnil =>
    cases hnil
    rw [List.cons_append, List.append_assoc] at h
    obtain ⟨blanks, rest, rfl, _, rfl, hrest⟩ :=
      exists_tokensFrom_eq_paren Lexeme.toList_text_opening rfl h
    obtain ⟨front, others, rfl, rfl, hothers⟩ := exists_tokensFrom_eq_append hrest
    obtain ⟨gap, back, rfl, hgap, rfl, hback⟩ :=
      exists_tokensFrom_eq_paren Lexeme.toList_text_closing rfl hothers
    -- the separators behind the last item lie inside the list, and have no tokens
    generalize hfirst : start + byteLength blanks = first at *
    have hitems : tokensFrom (first + 1) (front ++ gap) = tokensFrom (first + 1) front := by
      rw [tokensFrom_append (parted_of_separators_right hgap), tokensFrom_separators hgap,
        List.append_nil]
    have hlen : first + 1 + byteLength front + byteLength gap =
        first + 1 + byteLength (front ++ gap) := by
      rw [byteLength_append, Nat.add_assoc]
    rw [hlen] at hback ⊢
    rw [Span.merge_parens]
    refine ⟨blanks, '(' :: ((front ++ gap) ++ [')']), back, ?_, ?_, ?_, ?_⟩
    · simp only [List.append_assoc, List.cons_append, List.nil_append]
    · rw [hfirst]
      exact .list (front ++ gap) (hitems ▸ inside)
    · rw [hfirst, tokensFrom_parens, hitems]
    · rw [hfirst, add_byteLength_parens]
      exact hback

/-! ## 3. Nodes inside of nodes -/

theorem Span.Selects.stop_le {start : Nat} {cs part : List Char} {a : Span}
    (h : a.Selects start cs part) : a.stop ≤ start + byteLength cs := by
  obtain ⟨before, after, rfl, hstart, hstop⟩ := h
  simp only [byteLength_append]
  omega

/-- The node itself, and every node inside of it at any depth. -/
inductive Node.Inside (m : Node ω) : Node ω → Prop
  | self : Inside m m
  | item {items : List (Node ω)} {n : Node ω} (span : Span) (mem : n ∈ items) (inside : Inside m n) :
      Inside m (.list items span)

/-- Of characters that begin at byte `start`, `part` is what the node is read from. -/
def Node.Stands (start : Nat) (cs part : List Char) (n : Node ω) : Prop :=
  ∃ before after, cs = before ++ (part ++ after) ∧ n.Fills (start + byteLength before) part

section Standing

variable {start : Nat} {cs part : List Char} {m n : Node ω}

/-- What stands in a part stands in the whole. -/
theorem Node.Stands.within {front : List Char} (h : n.Stands (start + byteLength front) cs part)
    (back : List Char) : n.Stands start (front ++ (cs ++ back)) part := by
  obtain ⟨before, after, rfl, hfills⟩ := h
  refine ⟨front ++ before, after ++ back, by simp only [List.append_assoc], ?_⟩
  rw [byteLength_append, ← Nat.add_assoc]
  exact hfills

theorem Node.Stands.selects (h : n.Stands start cs part) : n.span.Selects start cs part := by
  obtain ⟨before, after, rfl, hfills⟩ := h
  rw [hfills.span_eq]
  exact ⟨before, after, (List.append_assoc ..).symm, rfl, rfl⟩

theorem Node.Stands.fills (h : n.Stands start cs part) : n.Fills n.span.start part := by
  obtain ⟨before, after, rfl, hfills⟩ := h
  rw [hfills.span_eq]
  exact hfills

/-- No node is empty. -/
theorem Node.Stands.start_lt_stop (h : n.Stands start cs part) : n.span.start < n.span.stop := by
  have hpos := byteLength_pos h.fills.ne_nil
  rw [h.selects.stop_eq]
  omega

/-- **All forms of some characters stand in them.** -/
theorem Spells.stands {ns : List (Node ω)} (h : Spells ns (tokensFrom start cs)) :
    ∀ n ∈ ns, ∃ part, n.Stands start cs part := by
  generalize hts : tokensFrom start cs = ts at h
  induction ns generalizing start cs ts with
  | nil => exact nofun
  | cons n ns ih =>
    obtain ⟨p, us, rfl, hn, hns⟩ := h.uncons
    obtain ⟨blanks, part, back, rfl, hfills, _, hback⟩ := exists_fills hn hts
    refine List.forall_mem_cons.mpr ⟨⟨part, blanks, back, rfl, hfills⟩, fun m hm => ?_⟩
    obtain ⟨piece, hpiece⟩ := ih _ hback hns m hm
    -- what stands behind the first form stands in all characters
    have hlen : start + byteLength blanks + byteLength part = start + byteLength (blanks ++ part) := by
      rw [byteLength_append, Nat.add_assoc]
    rw [hlen] at hpiece
    have := hpiece.within []
    rw [List.append_nil, List.append_assoc] at this
    exact ⟨piece, this⟩

/-- **Every node inside of one that stands in some characters stands in them too.** -/
theorem Node.Inside.stands (h : m.Inside n) (hn : n.Stands start cs part) :
    ∃ piece, m.Stands start cs piece := by
  induction h generalizing part with
  | self => exact ⟨part, hn⟩
  | @item items k span mem _ ih =>
    obtain ⟨before, after, rfl, hfills⟩ := hn
    obtain ⟨inside, rfl, hread⟩ := hfills.exists_inside
    obtain ⟨piece, hpiece⟩ := hread.stands k mem
    have hlist : k.Stands (start + byteLength before) (['('] ++ (inside ++ [')'])) piece :=
      hpiece.within [')']
    exact ih (hlist.within after)

end Standing

/-! ## 4. Nodes in order -/

/-- The conditions on nodes that take up characters beginning at byte `start`. -/
structure Spread (start : Nat) (cs : List Char) (ns : List (Node ω)) : Prop where
  /-- No node is empty. -/
  filled : ∀ n ∈ ns, n.span.start < n.span.stop
  /-- Each node ends before the next one begins. -/
  ordered : ns.Pairwise fun m n => m.span.stop ≤ n.span.start
  /-- Each node is a slice of the characters. -/
  slices : ∀ n ∈ ns, ∃ part, n.span.Selects start cs part
  /-- What no node covers is a separator. -/
  gaps : ∀ before c after, cs = before ++ c :: after →
    (∀ n ∈ ns, ¬ n.span.Covers (start + byteLength before)) →
    c ∈ [' ', '\t', '\n', '\r', '\x0c']

namespace Spells

variable {start : Nat} {cs : List Char} {ns : List (Node ω)}

/-- Each form ends before the next one begins. -/
theorem ordered (h : Spells ns (tokensFrom start cs)) :
    ns.Pairwise fun m n => m.span.stop ≤ n.span.start := by
  generalize hts : tokensFrom start cs = ts at h
  induction ns generalizing start cs ts with
  | nil => exact .nil
  | cons n ns ih =>
    obtain ⟨p, us, rfl, hn, hns⟩ := h.uncons
    obtain ⟨blanks, part, back, rfl, hfills, _, rfl⟩ := exists_fills hn hts
    refine List.pairwise_cons.mpr ⟨fun m hm => ?_, ih _ rfl hns⟩
    obtain ⟨piece, hpiece⟩ := hns.stands m hm
    rw [hfills.span_eq]
    exact hpiece.selects.start_le

/-- Every token belongs to a form. -/
theorem exists_of_mem (h : Spells ns (tokensFrom start cs)) {t : Token}
    (ht : t ∈ tokensFrom start cs) :
    ∃ n ∈ ns, n.span.start ≤ t.span.start ∧ t.span.stop ≤ n.span.stop := by
  generalize hts : tokensFrom start cs = ts at h ht
  induction ns generalizing start cs ts with
  | nil =>
    cases h
    cases ht
  | cons n ns ih =>
    obtain ⟨p, us, rfl, hn, hns⟩ := h.uncons
    obtain ⟨blanks, part, back, rfl, hfills, rfl, rfl⟩ := exists_fills hn hts
    rcases List.mem_append.mp ht with ht | ht
    · have hcut := (cut_tokensFrom _ part).slices t ht
      refine ⟨n, List.mem_cons_self, ?_⟩
      rw [hfills.span_eq]
      exact ⟨hcut.start_le, hcut.stop_le⟩
    · obtain ⟨m, hm, hle⟩ := ih _ rfl hns ht
      exact ⟨m, List.mem_cons_of_mem n hm, hle⟩

/-- **Forms take up the characters they are read from, in order, up to separators.** -/
theorem spread (h : Spells ns (tokensFrom start cs)) : Spread start cs ns where
  filled n hn := by
    obtain ⟨part, hpart⟩ := h.stands n hn
    exact hpart.start_lt_stop
  ordered := h.ordered
  slices n hn := by
    obtain ⟨part, hpart⟩ := h.stands n hn
    exact ⟨part, hpart.selects⟩
  gaps before c after hcs hfree := by
    -- a character that no token covers is a separator, and tokens lie inside of forms
    refine (cut_tokensFrom start cs).gaps before c after hcs fun t ht hcov => ?_
    obtain ⟨n, hn, hstart, hstop⟩ := h.exists_of_mem ht
    exact hfree n hn ⟨Nat.le_trans hstart hcov.1, Nat.lt_of_lt_of_le hcov.2 hstop⟩

end Spells

/-! ## 5. Slices of a text -/

/-- The characters of a node are, by themselves, read as this node alone, moved to their beginning. -/
theorem Node.Fills.exists_readAll {start : Nat} {part : List Char} {n : Node ω} (h : n.Fills start part) :
    ∃ m, readAll (tokenize (String.ofList part)) = .ok [m] ∧ m.shift start = n := by
  have hmoved := tokensFrom_add 0 start part
  rw [Nat.zero_add] at hmoved
  have hspells := h.spells
  rw [hmoved] at hspells
  obtain ⟨before, hbefore, hshift⟩ := hspells.of_shift
  obtain ⟨m, rfl, hm⟩ := List.map_eq_singleton_iff.mp hshift
  refine ⟨m, ?_, hm⟩
  rw [tokenize, String.toList_ofList]
  exact readAll_of_spells hbefore

theorem Node.Fills.readable {start : Nat} {part : List Char} {n : Node ω} (h : n.Fills start part) :
    n.Readable :=
  readable_of_spells (cut_tokensFrom start part) h.spells (List.Subset.refl _) n List.mem_cons_self

/-- The first form of a text stands in it. -/
theorem readText_stands {text : String} {n : Node ω} (h : readText text = .ok n) :
    ∃ part, n.Stands 0 text.toList part := by
  obtain ⟨p, hp, _, hspells⟩ := readOne_eq_ok (Prod.ext h rfl)
  obtain ⟨blanks, part, back, hcs, hfills, _⟩ := exists_fills hspells hp
  exact ⟨part, blanks, back, hcs, hfills⟩

/-- All forms of a text stand in it. -/
theorem readAll_stands {text : String} {forms : List (Node ω)}
    (h : readAll (tokenize text) = .ok forms) :
    ∀ form ∈ forms, ∃ part, form.Stands 0 text.toList part := by
  have hspells : Spells forms (tokensFrom 0 text.toList) := readAll_eq_ok_iff.mp h
  exact hspells.stands

theorem readText_readable {text : String} {n : Node ω} (h : readText text = .ok n) :
    n.Readable := by
  obtain ⟨part, hpart⟩ := readText_stands h
  exact hpart.fills.readable

theorem readAll_readable {text : String} {forms : List (Node ω)}
    (h : readAll (tokenize text) = .ok forms) : ∀ form ∈ forms, form.Readable := by
  intro form hform
  obtain ⟨part, hpart⟩ := readAll_stands h form hform
  exact hpart.fills.readable

/-- **Every node read from a text is a slice of the text.** The slice by itself is read as this node,
    moved to its beginning, and as nothing else. The slice of a list begins and ends with its
    parentheses, and between them its items stand in order with nothing but separators outside of
    them; so do the forms in the whole text. -/
theorem slice_reads_node {text : String} {forms : List (Node ω)}
    (h : readAll (tokenize text) = .ok forms) :
    Spread 0 text.toList forms ∧
    ∀ form ∈ forms, ∀ n, n.Inside form →
      ∃ part, n.span.Selects 0 text.toList part ∧
        (∃ m : Node ω, readAll (tokenize (String.ofList part)) = .ok [m] ∧
          m.shift n.span.start = n) ∧
        ∀ items span, n = .list items span →
          ∃ inside, part = '(' :: (inside ++ [')']) ∧ Spread (span.start + 1) inside items := by
  have hspells : Spells forms (tokensFrom 0 text.toList) := readAll_eq_ok_iff.mp h
  refine ⟨hspells.spread, fun form hform n hn => ?_⟩
  obtain ⟨whole, hwhole⟩ := readAll_stands h form hform
  obtain ⟨part, hpart⟩ := hn.stands hwhole
  refine ⟨part, hpart.selects, hpart.fills.exists_readAll, fun items span hlist => ?_⟩
  subst hlist
  obtain ⟨inside, hpart, hread⟩ := hpart.fills.exists_inside
  exact ⟨inside, hpart, hread.spread⟩

theorem slice_reads_node_accented :
    readAll (tokenize "(f (gé) x)") =
      .ok [(.list [.symbol "f" ⟨1, 2⟩, .list [.symbol "gé" ⟨4, 7⟩] ⟨3, 8⟩, .symbol "x" ⟨9, 10⟩]
        ⟨0, 11⟩ : Node Empty)] ∧
    ∃ part, Span.Selects 0 "(f (gé) x)".toList part ⟨3, 8⟩ ∧
      ∃ m : Node Empty, readAll (tokenize (String.ofList part)) = .ok [m] ∧
        m.shift 3 = .list [.symbol "gé" ⟨4, 7⟩] ⟨3, 8⟩ := by
  have hread : readAll (tokenize "(f (gé) x)") =
      .ok [(.list [.symbol "f" ⟨1, 2⟩, .list [.symbol "gé" ⟨4, 7⟩] ⟨3, 8⟩, .symbol "x" ⟨9, 10⟩]
        ⟨0, 11⟩ : Node Empty)] := by rfl
  refine ⟨hread, ?_⟩
  obtain ⟨part, hpart, hm, _⟩ := (slice_reads_node hread).2 _ List.mem_cons_self _
    (.item _ (List.mem_cons_of_mem _ List.mem_cons_self) .self)
  exact ⟨part, hpart, hm⟩

end MiniLisp
