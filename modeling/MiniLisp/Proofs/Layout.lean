import MiniLisp.Console.Batch
import MiniLisp.Proofs.Joining
import MiniLisp.Proofs.Places

/-!
# Layout: a program is the sequence of its tokens

Between two tokens there may be any separators, or none where one of them is a parenthesis, and a program
may be spread over several arguments. This file fixes that this changes places alone:

* `tokenTexts`: what the tokens of a text are written as. What a token is can be told from that
  (`ofText_text_of_mem`), and parts joined by separators have their tokens one after the other
  (`tokenTexts_intercalate`);
* `Spells.exists_alike`, **`readAll_alike`**: the same tokens at other places are read as the same forms at
  other places, or are refused for the same reason;
* `Run.TextsAlike`: two runs of texts that differ in places alone. **Texts with the same tokens are run
  alike** (`runAll_alike`), so they print the same (`Console.runText_alike`);
* `Console.programText?`: the text that the one-shot program runs, and what its exit code and its output
  tell about it;
* **`program_is_its_tokens`**: the result.
-/

namespace MiniLisp

variable {ω : Type}

/-! ## 1. Tokens -/

/-- What the tokens of a text are written as, in order. -/
def tokenTexts (text : String) : List String := (tokenize text).map Token.text

/-- The token that is written so. -/
def Lexeme.ofText (text : String) : Lexeme :=
  if text = "(" then opening else if text = ")" then closing else atom text

/-- What a token of some characters is can be told from its text, since no atom is a parenthesis. -/
theorem ofText_text_of_mem {start : Nat} {cs : List Char} {t : Token} (h : t ∈ tokensFrom start cs) :
    Lexeme.ofText t.text = t.lexeme := by
  obtain ⟨lexeme, span⟩ := t
  cases lexeme with
  | opening => rfl
  | closing => rfl
  | atom text =>
    have hchars : ∀ c ∈ text.toList, c ∉ [' ', '\t', '\n', '\r', '\x0c', '(', ')'] :=
      (cut_tokensFrom start cs).atoms _ h text rfl
    have hne : ∀ c ∈ ['(', ')'], text ≠ String.ofList [c] := by
      rintro c hc rfl
      refine hchars c (by simp) ?_
      exact List.mem_append_right [' ', '\t', '\n', '\r', '\x0c'] hc
    show Lexeme.ofText text = .atom text
    rw [Lexeme.ofText, if_neg (hne '(' (by simp)), if_neg (hne ')' (by simp))]

/-- The texts of tokens tell what the tokens are. -/
theorem map_lexeme_tokenize (text : String) :
    (tokenize text).map Token.lexeme = (tokenTexts text).map Lexeme.ofText := by
  rw [tokenTexts, List.map_map]
  exact List.map_congr_left fun t ht => (ofText_text_of_mem ht).symm

theorem tokenTexts_join {c : Char} (h : isSeparator c = true) (a b : String) :
    tokenTexts (a ++ c.toString ++ b) = tokenTexts a ++ tokenTexts b := by
  rw [tokenTexts, tokenize_join h, List.map_append, List.map_map]
  rfl

/-- **Parts joined by separators have the tokens of the parts**, one part after the other. -/
theorem tokenTexts_intercalate {c : Char} (h : isSeparator c = true) (parts : List String) :
    tokenTexts (c.toString.intercalate parts) = parts.flatMap tokenTexts := by
  induction parts with
  | nil => rfl
  | cons a rest ih =>
    cases rest with
    | nil => simp
    | cons b rest =>
      rw [String.intercalate_cons_cons, tokenTexts_join h, ih]
      exact List.flatMap_cons.symm

/-- Empty arguments and lone parentheses change nothing. -/
example : ["(*", "2", "", "(", "begin", "3))"].flatMap tokenTexts = tokenTexts "(* 2(begin 3))" := by decide

/-! ## 2. Reading -/

/-- A reading error without places. -/
def ReadError.bare : ReadError → ReadError
  | invalidToken _ => .invalidToken Span.nowhere
  | unexpectedClose _ => .unexpectedClose Span.nowhere
  | unexpectedEnd expected => .unexpectedEnd expected

section Reading

variable {ts us : List Token}

theorem Node.ofAtom_alike (text : String) (s t : Span) : (ofAtom text s : Node ω).Alike (ofAtom text t) := by
  unfold Node.ofAtom
  split <;> rfl

/-- **The same tokens spell the same forms**, at the places where they stand. -/
theorem Spells.exists_alike {forms : List (Node ω)} (h : Spells forms ts)
    (hsame : ts.map Token.lexeme = us.map Token.lexeme) :
    ∃ others, Spells others us ∧ Node.AlikeAll forms others := by
  induction h generalizing us with
  | nil =>
    obtain rfl := List.map_eq_nil_iff.mp hsame.symm
    exact ⟨[], .nil, rfl⟩
  | atom text s _ ih =>
    obtain ⟨⟨lexeme, t⟩, rest, rfl, rfl, hrest⟩ := List.map_eq_cons_iff.mp hsame.symm
    obtain ⟨others, hothers, halike⟩ := ih hrest.symm
    exact ⟨_, .atom text t hothers, Node.alikeAll_cons.mpr ⟨Node.ofAtom_alike text s t, halike⟩⟩
  | list o c _ _ ihi ihr =>
    rw [List.map_cons, List.map_append, List.map_cons] at hsame
    obtain ⟨⟨lexeme, o'⟩, behind, rfl, rfl, hbehind⟩ := List.map_eq_cons_iff.mp hsame.symm
    obtain ⟨inner, closed, rfl, hinner, hclosed⟩ := List.map_eq_append_iff.mp hbehind
    obtain ⟨⟨lexeme, c'⟩, rest, rfl, rfl, hrest⟩ := List.map_eq_cons_iff.mp hclosed
    obtain ⟨items, hitems, halikeItems⟩ := ihi hinner.symm
    obtain ⟨others, hothers, halike⟩ := ihr hrest.symm
    refine ⟨_, .list o' c' hitems hothers, Node.alikeAll_cons.mpr ⟨?_, halike⟩⟩
    rw [Node.Alike, Node.bare_list, Node.bare_list]
    exact congrArg (Node.list · Span.nowhere) halikeItems

/-- Depth is a matter of what the tokens are. -/
theorem depth_congr (h : ts.map Token.lexeme = us.map Token.lexeme) : depth ts = depth us := by
  have hcount : ∀ l : Lexeme, ts.countP (·.lexeme = l) = us.countP (·.lexeme = l) := by
    intro l
    have := congrArg (List.countP (· = l)) h
    rwa [List.countP_map, List.countP_map] at this
  rw [depth, depth, hcount, hcount]

theorem Keeps.congr {d : Int} (hk : Keeps d ts) (h : ts.map Token.lexeme = us.map Token.lexeme) :
    Keeps d us := by
  rintro p ⟨rest, rfl⟩
  rw [List.map_append] at h
  obtain ⟨front, behind, rfl, hfront, _⟩ := List.map_eq_append_iff.mp h
  rw [← depth_congr hfront]
  exact hk front (List.prefix_append front behind)

/-- **The same tokens are read alike**, wherever they stand: as forms that are alike, or not at all for the
    same reason. -/
theorem readAll_alike (h : ts.map Token.lexeme = us.map Token.lexeme) :
    (∃ forms others : List (Node ω), readAll ts = .ok forms ∧ readAll us = .ok others ∧
      Node.AlikeAll forms others) ∨
    ∃ cause other, (readAll ts : Except ReadError (List (Node ω))) = .error cause ∧
      (readAll us : Except ReadError (List (Node ω))) = .error other ∧ cause.bare = other.bare := by
  rcases keeps_or_excess (Int.le_refl 0) ts with hk | ⟨before, t, after, rfl, hk, ht⟩
  · by_cases h0 : depth ts = 0
    · obtain ⟨forms, hforms⟩ := readAll_of_keeps (ω := ω) hk h0
      obtain ⟨others, hothers, halike⟩ := (readAll_eq_ok_iff.mp hforms).exists_alike h
      exact .inl ⟨forms, others, hforms, readAll_of_spells hothers, halike⟩
    · have hpos : 0 < depth ts := by
        have := hk ts (List.prefix_refl ts)
        omega
      exact .inr ⟨_, _, readAll_of_open hk hpos, readAll_of_open (hk.congr h) (depth_congr h ▸ hpos), rfl⟩
  · -- the first parenthesis too many is the same one, at another place
    rw [List.map_append, List.map_cons] at h
    obtain ⟨before', closed, rfl, hbefore, hclosed⟩ := List.map_eq_append_iff.mp h.symm
    obtain ⟨t', after', rfl, htoken, _⟩ := List.map_eq_cons_iff.mp hclosed
    have hfront : (before ++ [t]).map Token.lexeme = (before' ++ [t']).map Token.lexeme := by
      rw [List.map_append, List.map_append, hbefore, List.map_singleton, List.map_singleton, htoken]
    rw [Int.zero_add] at ht
    exact .inr ⟨_, _, readAll_of_excess hk ht,
      readAll_of_excess (hk.congr hbefore.symm) (depth_congr hfront ▸ ht), rfl⟩

end Reading

/-! ## 3. Running -/

/-- An error without places. -/
def Error.bare : Error ω → Error ω
  | invalidToken _ => .invalidToken Span.nowhere
  | read cause => .read cause.bare
  | eval cause => .eval cause.bare

/-- Two texts come to values that are alike, or to the same error at two places. -/
inductive AlikeResults : Except (Error ω) (Option (Node ω)) → Except (Error ω) (Option (Node ω)) → Prop
  | value {v w : Option (Node ω)} (h : Node.AlikeIfAny v w) : AlikeResults (.ok v) (.ok w)
  | error {c d : Error ω} (h : c.bare = d.bare) : AlikeResults (.error c) (.error d)

/-- The runs of two texts come to the same, leave the same and log the same, but for places. -/
structure Run.TextsAlike (r s : Run ω (Error ω) (Option (Node ω))) : Prop where
  outcome : AlikeResults r.outcome s.outcome
  env : r.env.Alike s.env
  log : r.log.map Event.bare = s.log.map Event.bare

theorem Run.TextsAlike.note {r s : Run ω (Error ω) (Option (Node ω))} (h : r.TextsAlike s)
    (event : Event ω) : (r.note event).TextsAlike (s.note event) :=
  ⟨h.outcome, h.env, congrArg (event.bare :: ·) h.log⟩

/-- Evaluations that are alike are so as what texts come to. -/
theorem Run.Alike.mapError {r s : Run ω (EvalError ω) (Option (Node ω))}
    (h : r.Alike Node.AlikeIfAny s) : (r.mapError Error.eval).TextsAlike (s.mapError Error.eval) := by
  obtain ⟨outcome, a, log⟩ := r
  obtain ⟨outcome', b, log'⟩ := s
  obtain ⟨houtcome, henv, hlog⟩ := h
  cases houtcome with
  | ok hvalue => exact ⟨.value hvalue, henv, hlog⟩
  | error hcause => exact ⟨.error (congrArg Error.eval hcause), henv, hlog⟩

/-- **Texts with the same tokens are run alike** in environments that are alike. -/
theorem runAll_alike [Operation ω] (hall : ∀ p : Procedure ω, p.IgnoresPlaces) {a b : String}
    (h : tokenTexts a = tokenTexts b) {env other : Environment ω} (henv : env.Alike other) :
    (runAll env a).TextsAlike (runAll other b) := by
  have hlexemes : (tokenize a).map Token.lexeme = (tokenize b).map Token.lexeme := by
    rw [map_lexeme_tokenize, map_lexeme_tokenize, h]
  have hlength : (tokenize a).length = (tokenize b).length := by
    have := congrArg List.length hlexemes
    rwa [List.length_map, List.length_map] at this
  obtain ⟨forms, others, hforms, hothers, halike⟩ | ⟨cause, cause', hcause, hcause', hbare⟩ :=
    readAll_alike (ω := ω) hlexemes
  · have hnone : Node.AlikeIfAny (none : Option (Node ω)) none := rfl
    rw [runAll_of_read hforms, runAll_of_read hothers, hlength]
    exact (evaluateForms_alike hall halike hnone henv).mapError.note _
  · rw [runAll_of_unread hcause, runAll_of_unread hcause', hlength]
    exact ⟨.error (congrArg Error.read hbare), henv, rfl⟩

/-- A text that runs without an error has been read, and has a value exactly if it has a form. -/
theorem exists_forms_of_runAll_ok [Operation ω] {env : Environment ω} {text : String}
    {value : Option (Node ω)} (h : (runAll env text).outcome = .ok value) :
    ∃ forms : List (Node ω), readAll (tokenize text) = .ok forms ∧ (value = none ↔ forms = []) := by
  cases hread : readAll (ω := ω) (tokenize text) with
  | error cause =>
    rw [runAll_of_unread hread] at h
    cases h
  | ok forms =>
    refine ⟨forms, rfl, ?_⟩
    rcases List.eq_nil_or_concat' forms with rfl | ⟨front, last, rfl⟩
    · rw [runAll_of_read hread] at h
      cases h
      exact iff_of_true rfl rfl
    · obtain ⟨v, rfl, _⟩ := exists_value_of_last_form hread h
      exact iff_of_false nofun (List.append_ne_nil_of_right_ne_nil front (List.cons_ne_nil last []))

/-! ## 4. The one-shot program -/

namespace Console

/-- Without operations of a host no procedure can tell where something stands. -/
theorem ignoresPlaces (p : Procedure Empty) : p.IgnoresPlaces := Procedure.ignoresPlaces_of_hosts nofun p

/-- What is printed of a text is a matter of its tokens. -/
theorem runText_alike {a b : String} (h : tokenTexts a = tokenTexts b) :
    (runText a).stdout = (runText b).stdout ∧ (runText a).exitCode = (runText b).exitCode := by
  have houtcome := (runAll_alike ignoresPlaces h (fun _ => rfl : Environment.standard.Alike .standard)).outcome
  unfold runText
  generalize (runAll (Environment.standard : Environment Empty) a).outcome = o at houtcome
  generalize (runAll (Environment.standard : Environment Empty) b).outcome = u at houtcome
  cases houtcome with
  | error hcause => exact ⟨rfl, rfl⟩
  | @value v w hvalue =>
    cases v with
    | none =>
      obtain rfl := Option.map_eq_none_iff.mp hvalue.symm
      exact ⟨rfl, rfl⟩
    | some v =>
      obtain ⟨w, rfl, hw⟩ := Option.map_eq_some_iff.mp hvalue.symm
      exact ⟨congrArg (· ++ "\n") (Node.text_eq_of_bare_eq hw.symm), rfl⟩

/-- The exit code is 0 exactly if a text has run without an error. -/
theorem exitCode_runText_eq_zero {text : String} :
    (runText text).exitCode = 0 ↔
      ∃ value, (runAll (Environment.standard : Environment Empty) text).outcome = .ok value := by
  unfold runText
  cases houtcome : (runAll (Environment.standard : Environment Empty) text).outcome with
  | error e => exact iff_of_false nofun nofun
  | ok value => cases value <;> exact iff_of_true rfl ⟨_, rfl⟩

/-- Something is printed exactly if a text has run without an error and has a form. -/
theorem stdout_runText_ne_empty {text : String} :
    (runText text).stdout ≠ "" ↔
      (∃ value, (runAll (Environment.standard : Environment Empty) text).outcome = .ok value) ∧
      ∃ (form : Node Empty) (rest : List (Node Empty)), readAll (tokenize text) = .ok (form :: rest) := by
  unfold runText
  cases houtcome : (runAll (Environment.standard : Environment Empty) text).outcome with
  | error e => exact iff_of_false (fun h => h rfl) nofun
  | ok value =>
    obtain ⟨forms, hforms, hvalue⟩ := exists_forms_of_runAll_ok houtcome
    rw [hforms]
    cases value with
    | none =>
      obtain rfl := hvalue.mp rfl
      exact iff_of_false (fun h => h rfl) nofun
    | some value =>
      obtain ⟨form, rest, rfl⟩ := List.exists_cons_of_ne_nil (mt hvalue.mpr nofun)
      refine iff_of_true (fun h => ?_) ⟨⟨_, rfl⟩, form, rest, rfl⟩
      -- a line feed is printed behind the value
      have hempty := congrArg String.toList h
      rw [String.toList_append] at hempty
      exact List.append_ne_nil_of_right_ne_nil _ (List.cons_ne_nil _ _) hempty

/-- The text of the program: the arguments, or else what stands on the standard input, if that is a text. -/
def programText? (args : List String) (stdin : ByteArray) : Option String :=
  match args with
  | [] => String.fromUTF8? stdin
  | args => some (" ".intercalate args)

/-- The one-shot program runs its text, and has nothing to print where there is none. -/
theorem batch_eq (args : List String) (stdin : ByteArray) :
    batch args stdin = match programText? args stdin with
      | some text => runText text
      | none => ⟨1, "", "Failed to read stdin: " ++ invalidUtf8Text ++ "\n"⟩ := by
  cases args with
  | nil => rfl
  | cons a rest => rfl

/-- The tokens of arguments are those of the program that they are joined to. -/
theorem map_tokenTexts_programText? {args : List String} (h : args ≠ []) (stdin : ByteArray) :
    (programText? args stdin).map tokenTexts = some (args.flatMap tokenTexts) := by
  cases args with
  | nil => exact absurd rfl h
  | cons a rest => exact congrArg some (tokenTexts_intercalate (c := ' ') rfl (a :: rest))

/-- Programs with the same tokens, or no text at all, print the same. -/
theorem batch_alike {args others : List String} {stdin other : ByteArray}
    (h : (programText? args stdin).map tokenTexts = (programText? others other).map tokenTexts) :
    (batch args stdin).stdout = (batch others other).stdout ∧
      (batch args stdin).exitCode = (batch others other).exitCode := by
  rw [batch_eq, batch_eq]
  generalize programText? args stdin = a at h ⊢
  generalize programText? others other = b at h ⊢
  cases a with
  | none =>
    obtain rfl := Option.map_eq_none_iff.mp h.symm
    exact ⟨rfl, rfl⟩
  | some a =>
    obtain ⟨b, rfl, hb⟩ := Option.map_eq_some_iff.mp h.symm
    exact runText_alike hb.symm

/-- **A program is the sequence of its tokens.** Texts with the same token texts come to the same value or
    the same error, leave the same environment and log the same, but for places. The tokens of arguments are
    those of the program that they are joined to, so no atom is split or fused between two arguments, and it
    does not matter how the tokens are spread over arguments, or whether they stand on the standard input:
    what is printed and the exit code are the same. The exit code is 0 exactly if the program runs without an
    error; something is printed exactly if, besides, it has a form. -/
theorem program_is_its_tokens :
    (∀ a b : String, tokenTexts a = tokenTexts b →
      (runAll (Environment.standard : Environment Empty) a).TextsAlike (runAll .standard b) ∧
      (runText a).stdout = (runText b).stdout ∧ (runText a).exitCode = (runText b).exitCode) ∧
    (∀ args stdin, args ≠ [] →
      (programText? args stdin).map tokenTexts = some (args.flatMap tokenTexts)) ∧
    (∀ args others stdin other,
      (programText? args stdin).map tokenTexts = (programText? others other).map tokenTexts →
      (batch args stdin).stdout = (batch others other).stdout ∧
      (batch args stdin).exitCode = (batch others other).exitCode) ∧
    ∀ args stdin,
      ((batch args stdin).exitCode = 0 ↔ ∃ text value, programText? args stdin = some text ∧
        (runAll (Environment.standard : Environment Empty) text).outcome = .ok value) ∧
      ((batch args stdin).stdout ≠ "" ↔ ∃ text, programText? args stdin = some text ∧
        (∃ value, (runAll (Environment.standard : Environment Empty) text).outcome = .ok value) ∧
        ∃ (form : Node Empty) (rest : List (Node Empty)),
          readAll (tokenize text) = .ok (form :: rest)) := by
  refine ⟨fun a b h => ⟨?alike, runText_alike h⟩, fun args stdin h => map_tokenTexts_programText? h stdin,
    fun _ _ _ _ h => batch_alike h, fun args stdin => ?_⟩
  case alike => exact runAll_alike ignoresPlaces h fun _ => rfl
  rw [batch_eq]
  cases programText? args stdin with
  | none => exact ⟨iff_of_false nofun nofun, iff_of_false (fun h => h rfl) nofun⟩
  | some text =>
    constructor
    · rw [exitCode_runText_eq_zero]
      simp
    · rw [stdout_runText_ne_empty]
      simp

end Console

end MiniLisp
