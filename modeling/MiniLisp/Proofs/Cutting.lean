import MiniLisp.Token

/-!
# Cutting: the one way to cut a text

The tokens of a text can be told apart from all other sequences of tokens without a look at how
they are found. This file fixes:

* `Span.Selects`: what a span takes out of characters, by bytes and between characters;
* `Cut`: the conditions on a sequence of tokens. They are slices of the text in order; only
  separators lie outside of them; between two atoms that follow each other something lies;
* one character more: `Cut.glue` adds it in front of a cut, `Cut.unglue` takes it off again;
* **`cut_iff_eq_tokenize`**: a sequence of tokens meets the conditions exactly if it is the tokens
  of the text.
-/

namespace MiniLisp

/-! ## 1. Slices -/

namespace Span

/-- Of characters that begin at byte `start`, the span takes out `part`. -/
def Selects (start : Nat) (cs part : List Char) (a : Span) : Prop :=
  ∃ before after, cs = before ++ part ++ after ∧
    a.start = start + byteLength before ∧ a.stop = a.start + byteLength part

/-- The byte at an offset belongs to the span. -/
def Covers (a : Span) (offset : Nat) : Prop := a.start ≤ offset ∧ offset < a.stop

variable {start : Nat} {c : Char} {cs part : List Char} {a : Span}

theorem Selects.start_le (h : a.Selects start cs part) : start ≤ a.start := by
  obtain ⟨before, after, _, ha, _⟩ := h
  omega

theorem Selects.stop_eq (h : a.Selects start cs part) : a.stop = a.start + byteLength part := by
  obtain ⟨_, _, _, _, hstop⟩ := h
  exact hstop

/-- A slice stays one where a character is put in front. -/
theorem Selects.cons (h : a.Selects (start + c.utf8Size) cs part) :
    a.Selects start (c :: cs) part := by
  obtain ⟨before, after, rfl, ha, hb⟩ := h
  refine ⟨c :: before, after, rfl, ?_, hb⟩
  rw [ha, byteLength_cons, Nat.add_assoc]

/-- A slice that does not begin with the first character is a slice of the others. -/
theorem Selects.tail (h : a.Selects start (c :: cs) part) (hne : a.start ≠ start) :
    a.Selects (start + c.utf8Size) cs part := by
  obtain ⟨before, after, hcs, ha, hb⟩ := h
  cases before with
  | nil => exact absurd ha hne
  | cons d before =>
    rw [List.cons_append, List.cons_append] at hcs
    obtain ⟨rfl, rfl⟩ := List.cons.inj hcs
    refine ⟨before, after, rfl, ?_, hb⟩
    rw [ha, byteLength_cons, Nat.add_assoc]

/-- A slice that begins with the first character has it in front of a slice of the others. -/
theorem Selects.head {d : Char} (h : a.Selects start (c :: cs) (d :: part))
    (heq : a.start = start) :
    d = c ∧ Selects (start + c.utf8Size) cs part ⟨start + c.utf8Size, a.stop⟩ := by
  obtain ⟨before, after, hcs, ha, hb⟩ := h
  cases before with
  | nil =>
    rw [List.nil_append, List.cons_append] at hcs
    obtain ⟨rfl, rfl⟩ := List.cons.inj hcs
    refine ⟨rfl, [], after, rfl, rfl, ?_⟩
    rw [hb, heq, byteLength_cons, Nat.add_assoc]
  | cons e before =>
    rw [byteLength_cons] at ha
    have := e.utf8Size_pos
    omega

/-- A slice that the first character touches takes it in. -/
theorem Selects.widen {stop : Nat}
    (h : Selects (start + c.utf8Size) cs part ⟨start + c.utf8Size, stop⟩) :
    Selects start (c :: cs) (c :: part) ⟨start, stop⟩ := by
  obtain ⟨before, after, rfl, ha, hb⟩ := h
  cases before with
  | nil =>
    refine ⟨[], after, rfl, rfl, ?_⟩
    rw [byteLength_cons, ← Nat.add_assoc]
    exact hb
  | cons e before =>
    have ha' : start + c.utf8Size = start + c.utf8Size + byteLength (e :: before) := ha
    rw [byteLength_cons] at ha'
    have := e.utf8Size_pos
    omega

end Span

/-! ## 2. The conditions -/

/-- The conditions on the tokens of characters that begin at byte `start`. -/
structure Cut (start : Nat) (cs : List Char) (tokens : List Token) : Prop where
  /-- No token is empty. -/
  filled : ∀ t ∈ tokens, t.span.start < t.span.stop
  /-- Each token ends before the next one begins. -/
  ordered : tokens.Pairwise fun t u => t.span.stop ≤ u.span.start
  /-- Each token is what its span takes out of the text. -/
  slices : ∀ t ∈ tokens, t.span.Selects start cs t.text.toList
  /-- Atoms have neither separators nor parentheses in them. -/
  atoms : ∀ t ∈ tokens, ∀ text, t.lexeme = .atom text →
    ∀ c ∈ text.toList, c ∉ [' ', '\t', '\n', '\r', '\x0c', '(', ')']
  /-- What no token covers is a separator. -/
  gaps : ∀ before c after, cs = before ++ c :: after →
    (∀ t ∈ tokens, ¬ t.span.Covers (start + byteLength before)) →
    c ∈ [' ', '\t', '\n', '\r', '\x0c']
  /-- Between an atom and an atom behind it something lies. -/
  apart : ∀ before t u after, tokens = before ++ t :: u :: after →
    ∀ left right, t.lexeme = .atom left → u.lexeme = .atom right → t.span.stop < u.span.start

theorem isSeparator_iff {c : Char} :
    isSeparator c = true ↔ c ∈ [' ', '\t', '\n', '\r', '\x0c'] := by
  simp [isSeparator, or_assoc]

theorem isAtomChar_iff {c : Char} :
    isAtomChar c = true ↔ c ∉ [' ', '\t', '\n', '\r', '\x0c', '(', ')'] := by
  simp [isAtomChar, isSeparator, isParen, and_assoc]

namespace Cut

variable {start : Nat} {c : Char} {cs : List Char} {ts : List Token}

/-- Only separators lie outside if the first character is one where it lies outside, and only
    separators lie outside behind it. -/
theorem gaps_cons :
    (∀ before d after, c :: cs = before ++ d :: after →
      (∀ t ∈ ts, ¬ t.span.Covers (start + byteLength before)) →
      d ∈ [' ', '\t', '\n', '\r', '\x0c']) ↔
    ((∀ t ∈ ts, ¬ t.span.Covers start) → c ∈ [' ', '\t', '\n', '\r', '\x0c']) ∧
    ∀ before d after, cs = before ++ d :: after →
      (∀ t ∈ ts, ¬ t.span.Covers (start + c.utf8Size + byteLength before)) →
      d ∈ [' ', '\t', '\n', '\r', '\x0c'] := by
  constructor
  · intro h
    refine ⟨h [] c cs rfl, fun before d after hcs hfree => ?_⟩
    refine h (c :: before) d after (congrArg (c :: ·) hcs) ?_
    rw [byteLength_cons, ← Nat.add_assoc]
    exact hfree
  · intro ⟨hfirst, hrest⟩ before d after hcs hfree
    cases before with
    | nil =>
      obtain ⟨rfl, rfl⟩ := List.cons.inj hcs
      exact hfirst hfree
    | cons e before =>
      obtain ⟨rfl, hbehind⟩ := List.cons.inj hcs
      rw [byteLength_cons, ← Nat.add_assoc] at hfree
      exact hrest before d after hbehind hfree

/-- What holds of every two tokens in a row holds of the first two, and of every two behind. -/
theorem consecutive_cons {P : Token → Token → Prop} {t : Token} :
    (∀ before u v after, t :: ts = before ++ u :: v :: after → P u v) ↔
      (∀ u more, ts = u :: more → P t u) ∧
        ∀ before u v after, ts = before ++ u :: v :: after → P u v := by
  constructor
  · intro h
    refine ⟨fun u more hts => h [] t u more (congrArg (t :: ·) hts), ?_⟩
    intro before u v after hts
    exact h (t :: before) u v after (congrArg (t :: ·) hts)
  · intro ⟨hfirst, hrest⟩ before u v after hts
    cases before with
    | nil =>
      obtain ⟨rfl, hbehind⟩ := List.cons.inj hts
      exact hfirst v after hbehind
    | cons w before =>
      obtain ⟨rfl, hbehind⟩ := List.cons.inj hts
      exact hrest before u v after hbehind

/-! ## 3. One character more -/

theorem nil : Cut start [] [] where
  filled := nofun
  ordered := .nil
  slices := nofun
  atoms := nofun
  gaps := by
    intro before c after h
    simp at h
  apart := by
    intro before t u after h
    simp at h

/-- All tokens begin where the characters begin, or behind. -/
theorem start_le (h : Cut start cs ts) {t : Token} (ht : t ∈ ts) : start ≤ t.span.start :=
  (h.slices t ht).start_le

/-- A token is written with one character at least. -/
theorem toList_text_ne_nil (h : Cut start cs ts) {t : Token} (ht : t ∈ ts) :
    t.text.toList ≠ [] := by
  intro hnil
  have hfill := h.filled t ht
  have hstop := (h.slices t ht).stop_eq
  rw [hnil, byteLength_nil] at hstop
  omega

/-- A separator in front changes nothing. -/
theorem separator (h : Cut (start + c.utf8Size) cs ts) (hc : isSeparator c = true) :
    Cut start (c :: cs) ts where
  filled := h.filled
  ordered := h.ordered
  slices t ht := (h.slices t ht).cons
  atoms := h.atoms
  gaps := gaps_cons.mpr ⟨fun _ => isSeparator_iff.mp hc, h.gaps⟩
  apart := h.apart

/-- A token of its own in front. -/
theorem cons {l : Lexeme} (h : Cut (start + c.utf8Size) cs ts) (hl : l.text.toList = [c])
    (hatom : ∀ text, l = .atom text → isAtomChar c = true)
    (hapart : ∀ u more, ts = u :: more → ∀ left right, l = .atom left → u.lexeme = .atom right →
      start + c.utf8Size < u.span.start) :
    Cut start (c :: cs) (⟨l, ⟨start, start + c.utf8Size⟩⟩ :: ts) where
  filled := by
    intro t ht
    rcases List.mem_cons.mp ht with rfl | ht
    · exact Nat.lt_add_of_pos_right c.utf8Size_pos
    · exact h.filled t ht
  ordered := List.pairwise_cons.mpr ⟨fun t ht => h.start_le ht, h.ordered⟩
  slices := by
    intro t ht
    rcases List.mem_cons.mp ht with rfl | ht
    · refine ⟨[], cs, ?_, rfl, ?_⟩
      · show c :: cs = [] ++ l.text.toList ++ cs
        rw [hl]
        rfl
      · show start + c.utf8Size = start + byteLength l.text.toList
        rw [hl]
        rfl
    · exact (h.slices t ht).cons
  atoms := by
    intro t ht text htext d hd
    rcases List.mem_cons.mp ht with rfl | ht
    · have htext' : l = .atom text := htext
      subst htext'
      have hd' : d ∈ (Lexeme.atom text).text.toList := hd
      rw [hl, List.mem_singleton] at hd'
      rw [hd']
      exact isAtomChar_iff.mp (hatom text rfl)
    · exact h.atoms t ht text htext d hd
  gaps := by
    refine gaps_cons.mpr ⟨fun hfree => ?_, fun before d after hcs hfree => ?_⟩
    · have hcov : Span.Covers ⟨start, start + c.utf8Size⟩ start :=
        ⟨Nat.le_refl _, Nat.lt_add_of_pos_right c.utf8Size_pos⟩
      exact absurd hcov (hfree _ List.mem_cons_self)
    · exact h.gaps before d after hcs fun t ht => hfree t (List.mem_cons_of_mem _ ht)
  apart := consecutive_cons.mpr ⟨hapart, h.apart⟩

/-- An atom's character in front of an atom that it touches. -/
theorem fuse {text : String} {stop : Nat}
    (h : Cut (start + c.utf8Size) cs (⟨.atom text, ⟨start + c.utf8Size, stop⟩⟩ :: ts))
    (hc : isAtomChar c = true) :
    Cut start (c :: cs) (⟨.atom (c.toString ++ text), ⟨start, stop⟩⟩ :: ts) := by
  have hchars : (c.toString ++ text).toList = c :: text.toList := by
    simp [Char.toString]
  have hsize := c.utf8Size_pos
  have hstop : start + c.utf8Size < stop := h.filled _ List.mem_cons_self
  obtain ⟨hfirst, hrest⟩ := List.pairwise_cons.mp h.ordered
  refine { filled := ?filled, ordered := List.pairwise_cons.mpr ⟨hfirst, hrest⟩,
           slices := ?slices, atoms := ?atoms, gaps := ?gaps, apart := ?apart }
  case filled =>
    intro t ht
    rcases List.mem_cons.mp ht with rfl | ht
    · show start < stop
      omega
    · exact h.filled t (List.mem_cons_of_mem _ ht)
  case slices =>
    intro t ht
    rcases List.mem_cons.mp ht with rfl | ht
    · show Span.Selects start (c :: cs) (c.toString ++ text).toList ⟨start, stop⟩
      have hslice : Span.Selects (start + c.utf8Size) cs text.toList ⟨start + c.utf8Size, stop⟩ :=
        h.slices ⟨.atom text, ⟨start + c.utf8Size, stop⟩⟩ List.mem_cons_self
      rw [hchars]
      exact hslice.widen
    · exact (h.slices t (List.mem_cons_of_mem _ ht)).cons
  case atoms =>
    intro t ht left hleft d hd
    rcases List.mem_cons.mp ht with rfl | ht
    · cases hleft
      rw [hchars] at hd
      rcases List.mem_cons.mp hd with rfl | hd
      · exact isAtomChar_iff.mp hc
      · exact h.atoms _ List.mem_cons_self text rfl d hd
    · exact h.atoms t (List.mem_cons_of_mem _ ht) left hleft d hd
  case gaps =>
    refine gaps_cons.mpr ⟨fun hfree => ?_, fun before d after hcs hfree => ?_⟩
    · have hlt : start < stop := by omega
      have hcov : Span.Covers ⟨start, stop⟩ start := ⟨Nat.le_refl _, hlt⟩
      exact absurd hcov (hfree _ List.mem_cons_self)
    · refine h.gaps before d after hcs fun t ht => ?_
      rcases List.mem_cons.mp ht with rfl | ht
      · intro hcov
        have hle : start + c.utf8Size ≤ start + c.utf8Size + byteLength before := hcov.1
        exact hfree _ List.mem_cons_self ⟨Nat.le_trans (Nat.le_add_right start _) hle, hcov.2⟩
      · exact hfree t (List.mem_cons_of_mem _ ht)
  case apart =>
    obtain ⟨hnext, hbehind⟩ := consecutive_cons.mp h.apart
    refine consecutive_cons.mpr ⟨fun u more hts left right _ hr => ?_, hbehind⟩
    exact hnext u more hts text right rfl hr

/-- **One character more keeps the conditions.** -/
theorem glue (h : Cut (start + c.utf8Size) cs ts) : Cut start (c :: cs) (glue c start ts) := by
  obtain hsep | rfl | rfl | hc := char_cases c
  · rw [glue_separator hsep]
    exact h.separator hsep
  · exact h.cons rfl nofun nofun
  · exact h.cons rfl nofun nofun
  by_cases htouch : ∃ text stop more, ts = ⟨.atom text, ⟨start + c.utf8Size, stop⟩⟩ :: more
  · obtain ⟨text, stop, more, rfl⟩ := htouch
    rw [glue_touching hc]
    exact h.fuse hc
  · have hne : ∀ text span more, ts = ⟨.atom text, span⟩ :: more →
        span.start ≠ start + c.utf8Size := by
      rintro text ⟨first, stop⟩ more rfl rfl
      exact htouch ⟨text, stop, more, rfl⟩
    rw [glue_apart hc hne]
    refine h.cons (by simp [Lexeme.text, Char.toString]) (fun _ _ => hc) ?_
    rintro ⟨l, span⟩ more rfl left right _ hr
    cases hr
    exact Nat.lt_of_le_of_ne (h.start_le List.mem_cons_self) (hne right span more rfl).symm

/-! ## 4. One character less -/

/-- In front of a separator no token begins. -/
theorem start_ne_of_separator (h : Cut start (c :: cs) ts) (hc : isSeparator c = true) {t : Token}
    (ht : t ∈ ts) : t.span.start ≠ start := by
  intro heq
  have hs := h.slices t ht
  cases hchars : t.text.toList with
  | nil => exact absurd hchars (h.toList_text_ne_nil ht)
  | cons d part =>
    rw [hchars] at hs
    obtain ⟨rfl, _⟩ := hs.head heq
    have hd : d ∈ t.text.toList := hchars ▸ List.mem_cons_self
    cases hl : t.lexeme with
    | opening =>
      rw [Token.text, hl, Lexeme.toList_text_opening] at hd
      cases List.mem_singleton.mp hd
      exact absurd hc (by decide)
    | closing =>
      rw [Token.text, hl, Lexeme.toList_text_closing] at hd
      cases List.mem_singleton.mp hd
      exact absurd hc (by decide)
    | atom text =>
      have hd' : d ∈ text.toList := by
        rw [Token.text, hl] at hd
        exact hd
      have hatom := isAtomChar_iff.mpr (h.atoms t ht text hl d hd')
      simp [isAtomChar, hc] at hatom

/-- Behind a separator stands the same cut. -/
theorem of_separator (h : Cut start (c :: cs) ts) (hc : isSeparator c = true) :
    Cut (start + c.utf8Size) cs ts where
  filled := h.filled
  ordered := h.ordered
  slices t ht := (h.slices t ht).tail (h.start_ne_of_separator hc ht)
  atoms := h.atoms
  gaps := (gaps_cons.mp h.gaps).2
  apart := h.apart

/-- Where the characters begin with no separator, the first token begins with them. -/
theorem exists_first (h : Cut start (c :: cs) ts) (hc : isSeparator c ≠ true) :
    ∃ l stop us, ts = ⟨l, ⟨start, stop⟩⟩ :: us := by
  -- some token covers the first character, so it begins there, and none can stand in front of it
  have hcov : ∃ t ∈ ts, t.span.Covers start := by
    refine Classical.byContradiction fun hno => hc (isSeparator_iff.mpr ?_)
    exact (gaps_cons.mp h.gaps).1 fun t ht hcov => hno ⟨t, ht, hcov⟩
  obtain ⟨t, ht, hcov⟩ := hcov
  have hstart : t.span.start = start := Nat.le_antisymm hcov.1 (h.start_le ht)
  cases ts with
  | nil => cases ht
  | cons u us =>
    obtain ⟨l, first, stop⟩ := u
    have hfirst : start ≤ first := h.start_le List.mem_cons_self
    have hfill : first < stop := h.filled _ List.mem_cons_self
    rcases List.mem_cons.mp ht with rfl | ht
    · cases hstart
      exact ⟨l, stop, us, rfl⟩
    · have hord : stop ≤ t.span.start := (List.pairwise_cons.mp h.ordered).1 t ht
      omega

/-- Behind a token that ends with the first character stands a cut of the others. -/
theorem of_cons {l : Lexeme} (h : Cut start (c :: cs) (⟨l, ⟨start, start + c.utf8Size⟩⟩ :: ts)) :
    Cut (start + c.utf8Size) cs ts := by
  have hsize := c.utf8Size_pos
  obtain ⟨hfirst, hrest⟩ := List.pairwise_cons.mp h.ordered
  have hne : ∀ t ∈ ts, t.span.start ≠ start := by
    intro t ht
    have hle : start + c.utf8Size ≤ t.span.start := hfirst t ht
    omega
  refine { filled := fun t ht => h.filled t (List.mem_cons_of_mem _ ht), ordered := hrest,
           slices := ?slices, atoms := fun t ht => h.atoms t (List.mem_cons_of_mem _ ht),
           gaps := ?gaps, apart := (consecutive_cons.mp h.apart).2 }
  case slices =>
    intro t ht
    exact (h.slices t (List.mem_cons_of_mem _ ht)).tail (hne t ht)
  case gaps =>
    intro before d after hcs hfree
    refine (gaps_cons.mp h.gaps).2 before d after hcs fun t ht => ?_
    rcases List.mem_cons.mp ht with rfl | ht
    · intro hcov
      have hlt : start + c.utf8Size + byteLength before < start + c.utf8Size := hcov.2
      omega
    · exact hfree t ht

/-- Behind the first character of a longer atom stands a cut that begins with the rest of it. -/
theorem of_fuse {text : String} {d : Char} {part : List Char} {stop : Nat}
    (h : Cut start (c :: cs) (⟨.atom text, ⟨start, stop⟩⟩ :: ts))
    (htext : text.toList = c :: d :: part) :
    Cut (start + c.utf8Size) cs
      (⟨.atom (String.ofList (d :: part)), ⟨start + c.utf8Size, stop⟩⟩ :: ts) := by
  have hs : Span.Selects start (c :: cs) (c :: d :: part) ⟨start, stop⟩ := by
    have := h.slices _ List.mem_cons_self
    rw [← htext]
    exact this
  have hrest := (hs.head rfl).2
  obtain ⟨_, _, _, _, hstop⟩ := hrest
  obtain ⟨hfirst, hlast⟩ := List.pairwise_cons.mp h.ordered
  have hc := c.utf8Size_pos
  have hd := d.utf8Size_pos
  have hstop' : stop = start + c.utf8Size + (d.utf8Size + byteLength part) := hstop
  refine { filled := ?filled, ordered := List.pairwise_cons.mpr ⟨hfirst, hlast⟩,
           slices := ?slices, atoms := ?atoms, gaps := ?gaps, apart := ?apart }
  case filled =>
    intro t ht
    rcases List.mem_cons.mp ht with rfl | ht
    · show start + c.utf8Size < stop
      omega
    · exact h.filled t (List.mem_cons_of_mem _ ht)
  case slices =>
    intro t ht
    rcases List.mem_cons.mp ht with rfl | ht
    · show Span.Selects _ cs (String.ofList (d :: part)).toList _
      rw [String.toList_ofList]
      exact (hs.head rfl).2
    · refine (h.slices t (List.mem_cons_of_mem _ ht)).tail ?_
      have hle : stop ≤ t.span.start := hfirst t ht
      omega
  case atoms =>
    intro t ht left hleft e he
    rcases List.mem_cons.mp ht with rfl | ht
    · cases hleft
      rw [String.toList_ofList] at he
      exact h.atoms _ List.mem_cons_self text rfl e (htext ▸ List.mem_cons_of_mem _ he)
    · exact h.atoms t (List.mem_cons_of_mem _ ht) left hleft e he
  case gaps =>
    intro before e after hcs hfree
    refine (gaps_cons.mp h.gaps).2 before e after hcs fun t ht => ?_
    rcases List.mem_cons.mp ht with rfl | ht
    · exact fun hcov => hfree _ List.mem_cons_self ⟨Nat.le_add_right _ _, hcov.2⟩
    · exact hfree t (List.mem_cons_of_mem _ ht)
  case apart =>
    obtain ⟨hnext, hbehind⟩ := consecutive_cons.mp h.apart
    refine consecutive_cons.mpr ⟨fun u more hts left right _ hr => ?_, hbehind⟩
    exact hnext u more hts text right rfl hr

/-- **One character less leaves a cut to which it can be glued back.** -/
theorem unglue (h : Cut start (c :: cs) ts) :
    ∃ us, Cut (start + c.utf8Size) cs us ∧ ts = MiniLisp.glue c start us := by
  by_cases hsep : isSeparator c = true
  · exact ⟨ts, h.of_separator hsep, (glue_separator hsep start ts).symm⟩
  obtain ⟨l, stop, us, rfl⟩ := h.exists_first hsep
  have hs := h.slices _ List.mem_cons_self
  have hstop := hs.stop_eq
  cases l with
  | opening =>
    rw [Token.text, Lexeme.toList_text_opening] at hs hstop
    obtain ⟨rfl, _⟩ := hs.head rfl
    have hstop' : stop = start + 1 := hstop
    subst hstop'
    exact ⟨us, h.of_cons, rfl⟩
  | closing =>
    rw [Token.text, Lexeme.toList_text_closing] at hs hstop
    obtain ⟨rfl, _⟩ := hs.head rfl
    have hstop' : stop = start + 1 := hstop
    subst hstop'
    exact ⟨us, h.of_cons, rfl⟩
  | atom text =>
    have hs' : Span.Selects start (c :: cs) text.toList ⟨start, stop⟩ := hs
    have hstop' : stop = start + byteLength text.toList := hstop
    cases htext : text.toList with
    | nil => exact absurd htext (h.toList_text_ne_nil List.mem_cons_self)
    | cons d part =>
      rw [htext] at hs' hstop'
      obtain ⟨rfl, _⟩ := hs'.head rfl
      have hd : isAtomChar d = true :=
        isAtomChar_iff.mpr (h.atoms _ List.mem_cons_self text rfl d (htext ▸ List.mem_cons_self))
      cases part with
      | nil =>
        have hsingle : text = d.toString := by
          rw [← String.ofList_toList (s := text), htext]
          rfl
        subst hsingle
        cases hstop'
        refine ⟨us, h.of_cons, (glue_apart hd ?_).symm⟩
        rintro right span more rfl
        exact Nat.ne_of_gt (h.apart [] _ _ more rfl d.toString right rfl rfl)
      | cons e part =>
        refine ⟨_, h.of_fuse htext, ?_⟩
        rw [glue_touching hd]
        have hjoin : text = d.toString ++ String.ofList (e :: part) := by
          rw [toString_append_ofList, ← htext, String.ofList_toList]
        rw [← hjoin]

end Cut

/-! ## 5. One cut -/

theorem cut_tokensFrom (start : Nat) (cs : List Char) : Cut start cs (tokensFrom start cs) := by
  induction cs generalizing start with
  | nil => exact Cut.nil
  | cons c cs ih =>
    rw [tokensFrom_cons]
    exact (ih (start + c.utf8Size)).glue

theorem Cut.eq_tokensFrom {start : Nat} {cs : List Char} {ts : List Token} (h : Cut start cs ts) :
    ts = tokensFrom start cs := by
  induction cs generalizing start ts with
  | nil =>
    cases ts with
    | nil => rfl
    | cons t ts =>
      obtain ⟨before, after, hcs, _, _⟩ := h.slices t List.mem_cons_self
      simp only [List.nil_eq, List.append_eq_nil_iff] at hcs
      exact absurd hcs.1.2 (h.toList_text_ne_nil List.mem_cons_self)
  | cons c cs ih =>
    obtain ⟨us, hus, rfl⟩ := h.unglue
    rw [tokensFrom_cons, ← ih hus]

/-- **The tokens of a text are the one and only sequence of tokens that cuts it.** -/
theorem cut_iff_eq_tokenize (text : String) (tokens : List Token) :
    Cut 0 text.toList tokens ↔ tokens = tokenize text := by
  constructor
  · intro h
    exact h.eq_tokensFrom
  · rintro rfl
    exact cut_tokensFrom 0 text.toList

end MiniLisp
