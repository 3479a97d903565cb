import Mathlib.Data.List.Perm.Basic
import MiniLisp.Proofs.Conversing

/-!
# Trimming: blanks that are no separators

A dialogue trims the blanks off a line before it runs it; the one-shot program runs its text as it is. Not all
blanks are separators: some of them belong to atoms. This file fixes what trimming keeps, and where it does not
keep the program:

* `flatMap_text_tokensFrom`: the tokens of a text are its characters but for the separators, in order;
* `perm_trimmings`: a line is what is trimmed of it and what is trimmed off. **The tokens stay exactly if
  nothing but separators is trimmed off** (`tokenTexts_trim_iff`);
* `Balance.Fits.refusal`: reading fails for the reason that the parentheses give. Trimming leaves it, whatever it
  takes off, so **a line that cannot be read fails alike** (`readAll_trim`);
* `outcome_runAll_eq_none_iff`: a text has no form exactly if it is all separators;
* **`trimming_keeps_separated_programs`**: the result, and `trimming_changes_value`: a line that comes to one
  value as it is and to another one when it is trimmed.
-/

namespace MiniLisp

variable {ω : Type}

/-! ## 1. Characters of tokens -/

/-- A character that is put in front of tokens is put in front of their characters, unless it separates. -/
theorem flatMap_text_glue (c : Char) (start : Nat) (rest : List Token) :
    (glue c start rest).flatMap (·.text.toList) =
      [c].filter (fun c => !isSeparator c) ++ rest.flatMap (·.text.toList) := by
  rcases char_cases c with hsep | rfl | rfl | hatom
  · simp [glue_separator hsep, hsep]
  · rw [glue_opening, List.flatMap_cons]
    exact congrArg (· ++ _) Lexeme.toList_text_opening
  · rw [glue_closing, List.flatMap_cons]
    exact congrArg (· ++ _) Lexeme.toList_text_closing
  · obtain ⟨hsep, hop, hcl⟩ := isAtomChar_iff_not.mp hatom
    have hsingle : [c].filter (fun c => !isSeparator c) = [c] := by simp [hsep]
    have hnew : ∀ span more, (⟨.atom c.toString, span⟩ :: more : List Token).flatMap (·.text.toList) =
        [c] ++ more.flatMap (·.text.toList) := by simp [Token.text, Lexeme.text]
    simp only [glue, hsep, hop, hcl, if_false, Bool.false_eq_true, hsingle]
    split
    · split
      · simp [Token.text, Lexeme.text]
      · exact hnew _ _
    · exact hnew _ _

/-- **The characters of the tokens are those of the text but for the separators.** -/
theorem flatMap_text_tokensFrom (start : Nat) (cs : List Char) :
    (tokensFrom start cs).flatMap (·.text.toList) = cs.filter fun c => !isSeparator c := by
  induction cs generalizing start with
  | nil => rfl
  | cons c cs ih =>
    rw [tokensFrom_cons, flatMap_text_glue, ih, ← List.filter_append]
    rfl

theorem flatMap_toList_tokenTexts (text : String) :
    (tokenTexts text).flatMap String.toList = text.toList.filter fun c => !isSeparator c := by
  rw [tokenTexts, List.flatMap_map]
  exact flatMap_text_tokensFrom 0 text.toList

/-! ## 2. What is trimmed off -/

/-- A line is what is trimmed off and what is left. -/
theorem perm_trimmings (cs : List Char) : (Text.trimmings cs ++ Text.trim cs).Perm cs := by
  have hbehind : ((cs.dropWhile Text.isBlank).reverse.takeWhile Text.isBlank ++ Text.trim cs).Perm
      (cs.dropWhile Text.isBlank) := by
    refine ((List.reverse_perm _).append_left _).trans ?_
    rw [List.takeWhile_append_dropWhile]
    exact List.reverse_perm _
  rw [Text.trimmings, List.append_assoc]
  refine (hbehind.append_left _).trans ?_
  rw [List.takeWhile_append_dropWhile]

/-- **The tokens stay exactly if nothing but separators is trimmed off.** -/
theorem tokenTexts_trim_iff {cs : List Char} :
    tokenTexts (String.ofList (Text.trim cs)) = tokenTexts (String.ofList cs) ↔
      ∀ c ∈ Text.trimmings cs, isSeparator c = true := by
  refine ⟨fun h => ?_, tokenTexts_trim⟩
  have hchars := congrArg (fun texts => (texts.flatMap String.toList).length) h
  simp only [flatMap_toList_tokenTexts, String.toList_ofList] at hchars
  have hlength := ((perm_trimmings cs).filter fun c => !isSeparator c).length_eq
  rw [List.filter_append, List.length_append, hchars] at hlength
  -- so none of the characters trimmed off is one of a token
  have hnone : (Text.trimmings cs).filter (fun c => !isSeparator c) = [] :=
    List.length_eq_zero_iff.mp (by omega)
  simpa using List.filter_eq_nil_iff.mp hnone

/-! ## 3. What cannot be read -/

/-- Reading fails for the reason that the parentheses give, or not at all. -/
theorem Balance.Fits.refusal {b : Balance} {r : Except ReadError (List (Node ω))} (h : b.Fits r) :
    (∃ forms, r = .ok forms ∧ b.refusal? = none) ∨
      ∃ cause, r = .error cause ∧ b.refusal? = some cause.bare := by
  cases b with
  | complete =>
    obtain ⟨forms, hforms⟩ := h
    exact .inl ⟨forms, hforms, rfl⟩
  | incomplete => exact .inr ⟨_, h, rfl⟩
  | unmatched position =>
    obtain ⟨span, hspan, _⟩ := h
    exact .inr ⟨_, hspan, rfl⟩

/-- **A line can be read exactly if it can be when it is trimmed**, and else is refused for the same reason. -/
theorem readAll_trim (cs : List Char) :
    (∃ forms others : List (Node ω), readAll (tokenize (String.ofList (Text.trim cs))) = .ok forms ∧
      readAll (tokenize (String.ofList cs)) = .ok others) ∨
    ∃ cause other,
      (readAll (tokenize (String.ofList (Text.trim cs))) : Except ReadError (List (Node ω))) = .error cause ∧
      (readAll (tokenize (String.ofList cs)) : Except ReadError (List (Node ω))) = .error other ∧
      cause.bare = other.bare := by
  have hsame := refusal?_balance_trim cs
  rcases (balance_fits (ω := ω) (String.ofList (Text.trim cs))).refusal with
    ⟨forms, hforms, hnone⟩ | ⟨cause, hcause, hsome⟩
  · rcases (balance_fits (ω := ω) (String.ofList cs)).refusal with
      ⟨others, hothers, _⟩ | ⟨other, _, hother⟩
    · exact .inl ⟨forms, others, hforms, hothers⟩
    · rw [hnone, hother] at hsame
      cases hsame
  · rcases (balance_fits (ω := ω) (String.ofList cs)).refusal with
      ⟨_, _, hnone⟩ | ⟨other, hother, hsome'⟩
    · rw [hsome, hnone] at hsame
      cases hsame
    · rw [hsome, hsome'] at hsame
      exact .inr ⟨cause, other, hcause, hother, Option.some.inj hsame⟩

/-! ## 4. What is run -/

section Running

variable [Operation ω]

/-- **A text has no form exactly if it is all separators.** -/
theorem outcome_runAll_eq_none_iff {env : Environment ω} {text : String} :
    (runAll env text).outcome = .ok none ↔ ∀ c ∈ text.toList, isSeparator c = true := by
  have hchars := flatMap_text_tokensFrom 0 text.toList
  constructor
  · intro h
    obtain ⟨forms, hforms, hnone⟩ := exists_forms_of_runAll_ok h
    obtain rfl := hnone.mp rfl
    have htokens : tokenize text = [] := by
      have hspells := readAll_eq_ok_iff.mp hforms
      generalize tokenize text = ts at hspells
      cases hspells
      rfl
    have hempty : text.toList.filter (fun c => !isSeparator c) = [] := by
      rw [← hchars, ← tokenize, htokens]
      rfl
    simpa using List.filter_eq_nil_iff.mp hempty
  · intro h
    have htokens : tokenize text = [] := tokensFrom_separators h 0
    have hread : readAll (tokenize text) = .ok ([] : List (Node ω)) := by
      rw [htokens]
      rfl
    rw [runAll_of_read hread]
    rfl

/-- **What trimming keeps.** The tokens of a line stay exactly if nothing but separators is trimmed off; then
    the trimmed line and the whole one are run alike in every environment, if the procedures cannot tell
    where something stands. Whatever is trimmed off, a line can be read exactly if it can be when it is
    trimmed, and one that cannot fails for the same reason and changes nothing. A line has no form exactly if
    it is all separators, which a line of blanks need not be. -/
theorem trimming_keeps_separated_programs (line : String) (env : Environment ω) :
    (tokenTexts (String.ofList (Text.trim line.toList)) = tokenTexts line ↔
      ∀ c ∈ Text.trimmings line.toList, isSeparator c = true) ∧
    ((∀ p : Procedure ω, p.IgnoresPlaces) → (∀ c ∈ Text.trimmings line.toList, isSeparator c = true) →
      (runAll env (String.ofList (Text.trim line.toList))).TextsAlike (runAll env line)) ∧
    ((∃ forms : List (Node ω), readAll (tokenize (String.ofList (Text.trim line.toList))) = .ok forms) ↔
      ∃ forms : List (Node ω), readAll (tokenize line) = .ok forms) ∧
    (∀ cause, (readAll (tokenize line) : Except ReadError (List (Node ω))) = .error cause →
      AlikeResults (runAll env (String.ofList (Text.trim line.toList))).outcome (runAll env line).outcome ∧
      (runAll env (String.ofList (Text.trim line.toList))).env = env ∧ (runAll env line).env = env) ∧
    ((runAll env line).outcome = .ok none ↔ ∀ c ∈ line.toList, isSeparator c = true) := by
  have hline : String.ofList line.toList = line := String.ofList_toList
  have hread := readAll_trim (ω := ω) line.toList
  rw [hline] at hread
  refine ⟨?tokens, fun hall hseparators => ?run, ?reads, fun cause hcause => ?fails,
    outcome_runAll_eq_none_iff⟩
  case tokens =>
    have hiff := @tokenTexts_trim_iff line.toList
    rwa [hline] at hiff
  case run =>
    have htokens := tokenTexts_trim hseparators
    rw [hline] at htokens
    exact runAll_alike hall htokens fun _ => rfl
  case reads =>
    rcases hread with ⟨forms, others, hforms, hothers⟩ | ⟨_, _, htrimmed, hwhole, _⟩
    · exact iff_of_true ⟨forms, hforms⟩ ⟨others, hothers⟩
    · refine iff_of_false ?_ ?_
      · rintro ⟨forms, hforms⟩
        cases htrimmed.symm.trans hforms
      · rintro ⟨forms, hforms⟩
        cases hwhole.symm.trans hforms
  case fails =>
    rcases hread with ⟨_, others, _, hothers⟩ | ⟨_, _, htrimmed, hwhole, hbare⟩
    · cases hothers.symm.trans hcause
    · rw [runAll_of_unread htrimmed, runAll_of_unread hwhole]
      exact ⟨.error (congrArg Error.read hbare), rfl, rfl⟩

end Running

/-- A no-break space is part of the name that is bound here, and trimmed off the line that asks for it: the one
    comes to the sequence, the other to the number that stands under the name without it. A line of nothing
    but that character is empty when it is trimmed, and has a form as it is. -/
theorem trimming_changes_value :
    let env : Environment Empty := (runAll .standard "(define pi\u00a0 begin)").env
    let trimmed := String.ofList (Text.trim "pi\u00a0".toList)
    (runAll env "pi\u00a0").outcome =
        .ok (some (.procedure (.variadic .sequence Environment.sequenceName) Span.nowhere)) ∧
      (runAll env trimmed).outcome = .ok (some (.number Environment.pi Span.nowhere)) ∧
      ¬ AlikeResults (runAll env trimmed).outcome (runAll env "pi\u00a0").outcome ∧
      Text.trim "\u00a0".toList = [] ∧
      readAll (tokenize "\u00a0") = .ok [(.symbol "\u00a0" ⟨0, 2⟩ : Node Empty)] := by
  intro env trimmed
  have hdefine : readAll (tokenize "(define pi\u00a0 begin)") =
      .ok [(.list [.symbol "define" ⟨1, 7⟩, .symbol "pi\u00a0" ⟨8, 12⟩, .symbol "begin" ⟨13, 18⟩] ⟨0, 19⟩ :
        Node Empty)] := by rfl
  have henv : env = Environment.standard.define "pi\u00a0"
      (.procedure (.variadic .sequence Environment.sequenceName) Span.nowhere) := by
    simp only [env, runAll_of_alias hdefine Environment.get?_standard_sequence]
  have htrim : trimmed = "pi" := by
    have hchars : Text.trim "pi\u00a0".toList = "pi".toList := by decide
    exact (congrArg String.ofList hchars).trans String.ofList_toList
  -- a line that is a name comes to what the name is bound to
  have hname : ∀ (line name : String) (s : Span) (value : Node Empty),
      readAll (tokenize line) = .ok [(.symbol name s : Node Empty)] → env.get? name = some value →
      (runAll env line).outcome = .ok (some value) := by
    intro line name s value hread hget
    rw [runAll_of_form hread (evaluate_of_bound hget s)]
  have hwhole : (runAll env "pi\u00a0").outcome =
      .ok (some (.procedure (.variadic .sequence Environment.sequenceName) Span.nowhere)) := by
    refine hname _ "pi\u00a0" ⟨0, 4⟩ _ rfl ?_
    rw [henv, Environment.get?_define_self]
  have htrimmed : (runAll env trimmed).outcome = .ok (some (.number Environment.pi Span.nowhere)) := by
    rw [htrim]
    refine hname _ "pi" ⟨0, 2⟩ _ rfl ?_
    rw [henv, Environment.get?_define_of_ne (by decide)]
    exact Environment.get?_standard_pi
  refine ⟨hwhole, htrimmed, ?_, by decide, rfl⟩
  rw [hwhole, htrimmed]
  rintro ⟨hvalue⟩
  -- a number is no procedure, wherever they stand
  cases hvalue

end MiniLisp
