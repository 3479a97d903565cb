import MiniLisp.Proofs.Blame
import MiniLisp.Report.Drawing

/-!
# Labels: bytes that are read as characters

The span of an error counts bytes, and the renderer takes its two offsets as counts of characters. This
file fixes what comes of that:

* `surplus`: the bytes of a run of characters beyond one for each;
* `Span.TakesOut`: what a span takes out of a text for a reader who measures what stands before an
  offset in one way or another;
* `Report.rows_eq_headline_iff`: which offsets leave nothing of a report but its headline;
* `Error.Labelled`: where the label of an error lies. Each further byte before an offset moves this offset
  by one character to the right;
* **`label_covers_blamed_text_iff`**: the label lies on the blamed text exactly if all characters before the
  end of it are of one byte.
-/

namespace MiniLisp

open Text

/-! ## 1. Bytes beyond one for each character -/

/-- How many bytes a run of characters takes beyond one for each of them. -/
def surplus : List Char → Nat
  | [] => 0
  | c :: cs => c.utf8Size - 1 + surplus cs

@[simp] theorem surplus_nil : surplus [] = 0 := rfl

@[simp] theorem surplus_cons (c : Char) (cs : List Char) :
    surplus (c :: cs) = c.utf8Size - 1 + surplus cs := rfl

theorem byteLength_eq_length_add_surplus (cs : List Char) :
    byteLength cs = cs.length + surplus cs := by
  induction cs with
  | nil => rfl
  | cons c cs ih =>
    have := c.utf8Size_pos
    rw [byteLength_cons, surplus_cons, List.length_cons, ih]
    omega

theorem surplus_append (as bs : List Char) : surplus (as ++ bs) = surplus as + surplus bs := by
  induction as with
  | nil => simp
  | cons a as ih => simp [ih, Nat.add_assoc]

theorem surplus_eq_zero_iff (cs : List Char) : surplus cs = 0 ↔ ∀ c ∈ cs, c.utf8Size = 1 := by
  induction cs with
  | nil => simp
  | cons c cs ih =>
    have := c.utf8Size_pos
    rw [surplus_cons, Nat.add_eq_zero_iff, List.forall_mem_cons, ih]
    exact and_congr_left fun _ => by omega

/-! ## 2. Two readers of a span -/

/-- For a reader who takes an offset as the `measure` of what stands before it, the span takes `part` out
    of the text, at the place behind `before`. -/
def Span.TakesOut (measure : List Char → Nat) (text before part : List Char) (a : Span) : Prop :=
  ∃ after, text = before ++ part ++ after ∧ a.start = measure before ∧ a.stop = measure (before ++ part)

namespace Span

variable {text before part : List Char} {a : Span}

/-- A span that selects something takes it out, by bytes. -/
theorem Selects.exists_takesOut (h : a.Selects 0 text part) :
    ∃ before, a.TakesOut byteLength text before part := by
  obtain ⟨before, after, heq, hstart, hstop⟩ := h
  refine ⟨before, after, heq, ?_, ?_⟩
  · rw [hstart, Nat.zero_add]
  · rw [hstop, hstart, Nat.zero_add, byteLength_append]

theorem TakesOut.start_eq (h : a.TakesOut byteLength text before part) :
    a.start = before.length + surplus before := by
  obtain ⟨_, _, hstart, _⟩ := h
  rw [hstart, byteLength_eq_length_add_surplus]

theorem TakesOut.stop_eq (h : a.TakesOut byteLength text before part) :
    a.stop = (before ++ part).length + surplus (before ++ part) := by
  obtain ⟨_, _, _, hstop⟩ := h
  rw [hstop, byteLength_eq_length_add_surplus]

/-- **The readers by bytes and by characters take out the same, at the same place, exactly if no character
    up to the end of it has a second byte.** -/
theorem TakesOut.by_characters_iff (h : a.TakesOut byteLength text before part) :
    a.TakesOut List.length text before part ↔ ∀ c ∈ before ++ part, c.utf8Size = 1 := by
  have hstart := h.start_eq
  have hstop := h.stop_eq
  obtain ⟨after, heq, _, _⟩ := h
  rw [← surplus_eq_zero_iff]
  constructor
  · rintro ⟨_, _, _, hlength⟩
    omega
  · intro hzero
    -- what stands before the start stands before the stop
    have hbefore := surplus_append before part
    exact ⟨after, heq, by omega, by omega⟩

end Span

/-! ## 3. Offsets beyond the text -/

/-- There is a first line, and nothing stands before it. -/
theorem Text.exists_lines_eq_cons (cs : List Char) :
    ∃ first more, lines cs = first :: more ∧ first.start = 0 := by
  rw [lines]
  cases splitLines cs with
  | nil => exact ⟨_, [], rfl, rfl⟩
  | cons chars more => exact ⟨_, _, rfl, rfl⟩

/-- An offset falls into no line exactly if it lies beyond the end of the text. -/
theorem Text.lineAt?_eq_none_iff (cs : List Char) (offset : Nat) :
    lineAt? cs offset = none ↔ cs.length < offset := by
  obtain ⟨first, more, hlines, hstart⟩ := exists_lines_eq_cons cs
  have htake : (lines cs).takeWhile (·.start ≤ offset) ≠ [] := by
    rw [hlines, List.takeWhile_cons_of_pos (by simp [hstart])]
    exact List.cons_ne_nil _ _
  rw [lineAt?]
  split
  case isTrue h => simp [h]
  case isFalse h => simp [h, htake]

/-- **Nothing but the headline is left of a report** whose span begins beyond the end of the text, or has
    its last offset there. -/
theorem Report.rows_eq_headline_iff (r : Report) (text : String) :
    r.rows text = ["Error: " ++ r.headline] ↔
      text.toList.length < max r.span.start (r.span.stop - 1) := by
  have hordered := r.ordered
  have hfirst := lineAt?_eq_none_iff text.toList r.span.start
  have hlast : (if r.span.stop ≤ r.span.start then lineAt? text.toList r.span.start
      else lineAt? text.toList (r.span.stop - 1)) = none ↔
        text.toList.length < max r.span.start (r.span.stop - 1) := by
    split <;> rw [lineAt?_eq_none_iff] <;> omega
  rw [← hlast]
  simp only [Report.rows]
  generalize (if r.span.stop ≤ r.span.start then lineAt? text.toList r.span.start
      else lineAt? text.toList (r.span.stop - 1)) = last? at hlast ⊢
  generalize lineAt? text.toList r.span.start = first? at hfirst ⊢
  cases last? with
  | none => cases first? <;> simp
  | some last =>
    cases first? with
    | none => exact absurd (hlast.mpr (by have := hfirst.mp rfl; omega)) nofun
    | some first => simp

/-! ## 4. Labels -/

variable {ω : Type}

/-- Where the label of an error lies: the text is `before`, the blamed `part`, and `after`. -/
structure Error.Labelled (text : String) (e : Error ω) (report : Report)
    (before part after : List Char) : Prop where
  /-- The error can be shown. -/
  shown : e.report text = .ok report
  whole : text.toList = before ++ part ++ after
  /-- By bytes, the report points at the blamed part. -/
  blamed : report.span.TakesOut byteLength text.toList before part
  /-- Where the error has a span, the report has it, and it takes out something. -/
  spanned : ∀ span, e.span? = some span → report.span = span ∧ part ≠ []
  /-- An error without a span is about the end of the text. -/
  atEnd : e.span? = none → part = [] ∧ after = []
  /-- The label begins so many characters to the right of the blamed part as `before` has bytes beyond one
      for each character. -/
  start : report.span.start = before.length + surplus before
  /-- It ends further to the right by the same rule. -/
  stop : report.span.stop = (before ++ part).length + surplus (before ++ part)
  /-- It covers the blamed part if there are no such bytes, and not otherwise. -/
  covers : report.span.TakesOut List.length text.toList before part ↔
    ∀ c ∈ before ++ part, c.utf8Size = 1
  /-- Only the headline is left exactly if there are more of them than characters left to point at. -/
  lost : report.rows text = ["Error: " ++ report.headline] ↔
    after.length + min 1 part.length < surplus (before ++ part)

/-- What a report points at by bytes determines where its label lies. -/
theorem Error.Labelled.of_offsets {text : String} {e : Error ω} {report : Report}
    {before part after : List Char} (shown : e.report text = .ok report)
    (whole : text.toList = before ++ part ++ after)
    (start : report.span.start = byteLength before)
    (stop : report.span.stop = byteLength (before ++ part))
    (spanned : ∀ span, e.span? = some span → report.span = span ∧ part ≠ [])
    (atEnd : e.span? = none → part = [] ∧ after = []) :
    e.Labelled text report before part after := by
  have hblamed : report.span.TakesOut byteLength text.toList before part := ⟨after, whole, start, stop⟩
  have hstart := hblamed.start_eq
  have hstop := hblamed.stop_eq
  refine ⟨shown, whole, hblamed, spanned, atEnd, hstart, hstop, hblamed.by_characters_iff, ?lost⟩
  have hsurplus := surplus_append before part
  have hlength : text.toList.length = before.length + part.length + after.length := by
    rw [whole, List.length_append, List.length_append]
  rw [Report.rows_eq_headline_iff, hlength]
  rw [List.length_append] at hstop
  cases hspan : e.span? with
  | none =>
    obtain ⟨rfl, rfl⟩ := atEnd hspan
    rw [surplus_nil] at hsurplus
    rw [List.length_nil] at hstop ⊢
    omega
  | some span =>
    have hpos := List.length_pos_iff.mpr (spanned span hspan).2
    omega

/-- A report points at what its error blames. -/
theorem Error.span_of_report {text : String} {e : Error ω} {report : Report}
    (h : e.report text = .ok report) : report.span = e.blame text := by
  rw [Error.report] at h
  split at h
  · cases h
    rfl
  · cases h

/-- Every error that a text can blame has its label. -/
theorem Error.Blames.exists_labelled {text : String} {after : Environment ω} {e : Error ω}
    (h : e.Blames text after) :
    ∃ report before part rest, e.Labelled text report before part rest := by
  obtain ⟨report, hreport⟩ := h.exists_report
  have hspan := Error.span_of_report hreport
  cases hcase : e.span? with
  | none =>
    have hblame : report.span = ⟨text.utf8ByteSize, text.utf8ByteSize⟩ := by
      rw [hspan, Error.blame, hcase]
      rfl
    refine ⟨report, text.toList, [], [], .of_offsets hreport (by simp) ?_ ?_ ?_ ?_⟩
    · rw [hblame, byteLength_toList]
    · rw [hblame, List.append_nil, byteLength_toList]
    · intro span hspan
      rw [hcase] at hspan
      cases hspan
    · exact fun _ => ⟨rfl, rfl⟩
  | some span =>
    have hblame : report.span = span := by
      rw [hspan, Error.blame, hcase]
      rfl
    obtain ⟨part, hne, hselects⟩ := h.exists_selects hcase
    rw [← hblame] at hselects
    obtain ⟨before, rest, hwhole, hstart, hstop⟩ := hselects.exists_takesOut
    refine ⟨report, before, part, rest, .of_offsets hreport hwhole hstart hstop ?_ ?_⟩
    · intro other hother
      rw [hcase] at hother
      cases hother
      exact ⟨hblame, hne⟩
    · intro hnone
      rw [hcase] at hnone
      cases hnone

/-- **The label lies on the blamed text exactly if no character up to the end of it has a second byte.**
    For every text, whatever was run before it, and every error of it: the report exists, and by bytes it
    points at what is blamed. The renderer reads characters, so each further byte before an offset moves
    this offset to the right, and where the text ends too early for that, only the headline is left. -/
theorem label_covers_blamed_text_iff [Operation ω] {env : Environment ω} (henv : env.Reachable)
    {text : String} {e : Error ω} (he : (runAll env text).outcome = .error e) :
    ∃ report before part after, e.Labelled text report before part after :=
  (runAll_blames henv.ordinary he).exists_labelled

/-- A list that is not closed, with a character of two bytes in it. -/
theorem label_covers_blamed_text_iff_of_unclosed :
    let e : Error Empty := .read (.unexpectedEnd .closing)
    (runAll .standard "(é").outcome = .error e ∧
      ∃ report before part after, e.Labelled "(é" report before part after := by
  intro e
  have hread : readAll (tokenize "(é") = (.error (.unexpectedEnd .closing) :
      Except ReadError (List (Node Empty))) := by
    rfl
  have he : (runAll .standard "(é").outcome = .error e := by
    rw [runAll_of_unread hread]
  exact ⟨he, label_covers_blamed_text_iff .standard he⟩

/-- A name behind a character of two bytes: the error blames the name, and the label stands below the
    parenthesis behind it. -/
theorem label_beside_blamed_text :
    let text := "(define é pi) (x)"
    let e : Error Empty := .eval (.unbound "x" ⟨16, 17⟩)
    (runAll .standard text).outcome = .error e ∧
      ∃ report, e.report text = .ok report ∧
        report.span.TakesOut byteLength text.toList "(define é pi) (".toList ['x'] ∧
        report.span.TakesOut List.length text.toList "(define é pi) (x".toList [')'] ∧
        ¬ report.span.TakesOut List.length text.toList "(define é pi) (".toList ['x'] := by
  intro text e
  have hread : readAll (tokenize "(define é pi) (x)") =
      .ok [(.list [.symbol defineWord ⟨1, 7⟩, .symbol "é" ⟨8, 10⟩, .symbol "pi" ⟨11, 13⟩] ⟨0, 14⟩ :
        Node Empty), .list [.symbol "x" ⟨16, 17⟩] ⟨15, 18⟩] := by
    rfl
  let pi : Node Empty := .number Environment.pi Span.nowhere
  let after : Environment Empty := Environment.standard.define "é" pi
  have hdefine : evaluate .standard
      (.list [.symbol defineWord ⟨1, 7⟩, .symbol "é" ⟨8, 10⟩, .symbol "pi" ⟨11, 13⟩] ⟨0, 14⟩) =
      ⟨.ok pi, after, [.defined "é" pi]⟩ :=
    evaluate_define_of_ok rfl (evaluate_of_bound Environment.get?_standard_pi _) "é" _ _
  have hunbound : after.get? "x" = none := by
    rw [Environment.get?_define_of_ne (by decide)]
    exact Environment.get?_standard_of_notMem (by decide)
  have hcall : evaluate after (.list [.symbol "x" ⟨16, 17⟩] ⟨15, 18⟩) =
      .fail after (.unbound "x" ⟨16, 17⟩) :=
    evaluate_call_of_head_error rfl (Environment.resolve_of_unbound hunbound _) [] _
  have he : (runAll .standard text).outcome = .error e := by
    rw [runAll_of_read hread, evaluateForms, hdefine]
    simp only [Run.andThen, evaluateForms, hcall]
    rfl
  refine ⟨he, ⟨e.headline, e.label, ⟨16, 17⟩, by decide⟩, rfl, ⟨[')'], by decide, rfl, rfl⟩,
    ⟨[], by decide, rfl, rfl⟩, ?_⟩
  rintro ⟨_, _, hstart, _⟩
  exact absurd hstart (by decide)

end MiniLisp
