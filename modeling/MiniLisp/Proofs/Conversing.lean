import MiniLisp.Proofs.Agreement
import MiniLisp.Proofs.Layout

/-!
# Conversing: a dialogue is one program, told line by line

A dialogue trims each line and runs it in the environment that the lines before have left; a program is read as
a whole before anything of it is run. This file fixes that this makes no difference, up to the first line that
fails:

* `Text.trimmings`: the blanks that trimming takes off. Where they are separators, the tokens stay
  (`tokenTexts_trim`);
* `Console.Plain`: a line that a dialogue takes and whose tokens stay. All lines together have the forms of
  each, one line after the other, but for places (`Console.exists_forms_of_lines`);
* `Console.Converses`: what lines come to that do not fail, form by form, and the values that are printed of
  them: one for each line that has a form. **It is what all their forms come to**
  (`Console.Converses.evaluateForms_eq`), and what a dialogue does (`Console.Converses.answerAll_eq`);
* `Console.FirstFails`: the first line that fails. All forms fail as it does
  (`Console.FirstFails.evaluateForms_eq`), and a dialogue reports it (`Console.Converses.answerAll_concat`);
* `Console.typed`: lines over a pipe. They arrive one by one as they are (`Console.converse_typed`);
* **`dialogue_is_one_program`**: the result.
-/

namespace MiniLisp

variable {ω : Type}

/-! ## 1. Trimming -/

/-- The blanks that trimming takes off characters, in front and then behind. -/
def Text.trimmings (cs : List Char) : List Char :=
  cs.takeWhile isBlank ++ (cs.dropWhile isBlank).reverse.takeWhile isBlank

/-- Characters are what is trimmed of them, between the blanks taken off. -/
theorem exists_eq_append_trim (cs : List Char) :
    ∃ front back, cs = front ++ (Text.trim cs ++ back) ∧
      ∀ c ∈ front ++ back, c ∈ Text.trimmings cs := by
  refine ⟨cs.takeWhile Text.isBlank, ((cs.dropWhile Text.isBlank).reverse.takeWhile Text.isBlank).reverse,
    ?_, fun c hc => ?_⟩
  · rw [Text.trim, Text.trimRight, ← List.reverse_append, List.takeWhile_append_dropWhile,
      List.reverse_reverse, List.takeWhile_append_dropWhile]
  · rw [List.mem_append, List.mem_reverse] at hc
    exact List.mem_append.mpr hc

/-- **Where only separators are trimmed off, the tokens stay.** -/
theorem tokenTexts_trim {cs : List Char} (h : ∀ c ∈ Text.trimmings cs, isSeparator c = true) :
    tokenTexts (String.ofList (Text.trim cs)) = tokenTexts (String.ofList cs) := by
  obtain ⟨front, back, hcs, hblanks⟩ := exists_eq_append_trim cs
  have hfront : ∀ c ∈ front, isSeparator c = true := fun c hc => h c (hblanks c (List.mem_append_left _ hc))
  have hback : ∀ c ∈ back, isSeparator c = true := fun c hc => h c (hblanks c (List.mem_append_right _ hc))
  have hmoved : tokensFrom 0 cs = (tokensFrom 0 (Text.trim cs)).map (·.shift (byteLength front)) := by
    conv_lhs => rw [hcs]
    rw [tokensFrom_append (parted_of_separators_left hfront), tokensFrom_separators hfront,
      tokensFrom_append (parted_of_separators_right hback), tokensFrom_separators hback, List.nil_append,
      List.append_nil, tokensFrom_add]
  rw [tokenTexts, tokenTexts, tokenize, tokenize, String.toList_ofList, String.toList_ofList, hmoved,
    List.map_map]
  rfl

/-- A no-break space is trimmed off, though it belongs to an atom. -/
example : tokenTexts (String.ofList (Text.trim "\u00a0x".toList)) = ["x"] ∧
    tokenTexts "\u00a0x" = ["\u00a0x"] := by decide

/-! ## 2. Forms behind a value -/

section Evaluating

variable [Operation ω] {env : Environment ω} {last : Option (Node ω)} {forms : List (Node ω)}

/-- Forms come to the value of the last of them, or else to what stood there before. -/
theorem evaluateForms_or (env : Environment ω) (last : Option (Node ω)) (forms : List (Node ω)) :
    evaluateForms env last forms =
      (evaluateForms env none forms).andThen fun value after => .done after (value.or last) := by
  induction forms generalizing env last with
  | nil => rfl
  | cons form rest ih =>
    have hrest : ∀ value after, evaluateForms after (some value) rest =
        (evaluateForms after (some value) rest).andThen fun found final =>
          .done final (found.or last) := by
      intro value after
      rw [ih after (some value), Run.andThen_assoc]
      simp only [Run.done_andThen, Option.or_assoc, Option.some_or]
    rw [evaluateForms, evaluateForms, Run.andThen_assoc]
    exact congrArg _ (funext fun value => funext fun after => hrest value after)

theorem evaluateForms_of_ok {value : Option (Node ω)}
    (h : (evaluateForms env none forms).outcome = .ok value) (last : Option (Node ω)) :
    (evaluateForms env last forms).outcome = .ok (value.or last) ∧
      (evaluateForms env last forms).env = (evaluateForms env none forms).env := by
  rw [evaluateForms_or, Run.andThen_of_ok h]
  exact ⟨rfl, rfl⟩

theorem evaluateForms_of_error {cause : EvalError ω}
    (h : (evaluateForms env none forms).outcome = .error cause) (last : Option (Node ω)) :
    (evaluateForms env last forms).outcome = .error cause ∧
      (evaluateForms env last forms).env = (evaluateForms env none forms).env := by
  rw [evaluateForms_or, Run.andThen_of_error h]
  exact ⟨rfl, rfl⟩

end Evaluating

namespace Console

/-! ## 3. Lines -/

/-- A line without the blanks at its ends. It is not unfolded where two runs of it are compared. -/
@[irreducible] def trimmed (line : String) : String := String.ofList (Text.trim line.toList)

/-- A line that a dialogue takes, and whose tokens stay when it is trimmed: all parentheses have their
    partners, it is not the word that ends the dialogue, and what is trimmed off are separators. -/
structure Plain (line : String) : Prop where
  complete : balance line = .complete
  goesOn : Dialogue.isExit (Text.trim line.toList) = false
  separators : ∀ c ∈ Text.trimmings line.toList, isSeparator c = true

/-- The forms of a line, where they stand in it when it is trimmed; none if it cannot be read. -/
def lineForms (line : String) : List (Node Empty) :=
  (readAll (tokenize (trimmed line))).toOption.getD []

variable {line : String} {lines : List String}

theorem Plain.tokenTexts_trimmed (h : Plain line) : tokenTexts (trimmed line) = tokenTexts line := by
  rw [trimmed, tokenTexts_trim h.separators, String.ofList_toList]

/-- A line that is taken can be read. -/
theorem Plain.readAll_eq (h : Plain line) : readAll (tokenize (trimmed line)) = .ok (lineForms line) := by
  have hbalance : balance (trimmed line) = .complete := by
    rw [trimmed, balance_trim, String.ofList_toList]
    exact h.complete
  obtain ⟨forms, hforms⟩ := (balance_fits (ω := Empty) (trimmed line)).complete_iff.mp hbalance
  rw [lineForms, hforms]
  rfl

/-- **Lines together have the forms of each**, one line after the other, but for places. -/
theorem exists_forms_of_lines (h : ∀ line ∈ lines, Plain line) :
    ∃ forms, readAll (tokenize ("\n".intercalate lines)) = .ok forms ∧
      Node.AlikeAll (lines.flatMap lineForms) forms := by
  have hspells : Spells (lines.flatMap lineForms) (lines.flatMap (tokenize ∘ trimmed)) := by
    induction lines with
    | nil => exact .nil
    | cons line rest ih =>
      obtain ⟨hline, hrest⟩ := List.forall_mem_cons.mp h
      rw [List.flatMap_cons, List.flatMap_cons]
      exact (readAll_eq_ok_iff.mp hline.readAll_eq).append (ih hrest)
  have hlexemes : (lines.flatMap (tokenize ∘ trimmed)).map Token.lexeme =
      (tokenize ("\n".intercalate lines)).map Token.lexeme := by
    have hjoined : tokenTexts ("\n".intercalate lines) = _ := tokenTexts_intercalate (c := '\n') rfl lines
    rw [map_lexeme_tokenize, hjoined, List.map_flatMap, List.map_flatMap]
    refine List.flatMap_congr fun line hline => ?_
    rw [Function.comp_apply, map_lexeme_tokenize, (h line hline).tokenTexts_trimmed]
  obtain ⟨forms, hforms, halike⟩ := hspells.exists_alike hlexemes
  exact ⟨forms, readAll_of_spells hforms, halike⟩

/-! ## 4. What lines come to -/

/-- The lines come to values one after the other, beginning in an environment and ending in another, and none
    of them fails. A line without forms has nothing to print; of any other the value of its last form is
    printed. -/
inductive Converses : Environment Empty → List String → List (Node Empty) → Environment Empty → Prop
  | done (env : Environment Empty) : Converses env [] [] env
  | silent {env after : Environment Empty} {line : String} {rest : List String}
      {values : List (Node Empty)} (read : readAll (ω := Empty) (tokenize (trimmed line)) = .ok [])
      (h : Converses env rest values after) : Converses env (line :: rest) values after
  | speaks {env middle after : Environment Empty} {line : String} {rest : List String}
      {front values : List (Node Empty)} {form value : Node Empty} {before : Option (Node Empty)}
      (read : readAll (tokenize (trimmed line)) = .ok (front ++ [form]))
      (front_ok : (evaluateForms env none front).outcome = .ok before)
      (form_ok : (evaluate (evaluateForms env none front).env form).outcome = .ok value)
      (leaves : (evaluate (evaluateForms env none front).env form).env = middle)
      (h : Converses middle rest values after) : Converses env (line :: rest) (value :: values) after

/-- Behind lines that do not fail, a line fails. -/
def FirstFails (env : Environment Empty) (before : List String) (line : String) (middle : Environment Empty)
    (e : Error Empty) : Prop :=
  ∃ values, Converses env before values middle ∧ (runAll middle (trimmed line)).outcome = .error e

variable {env middle after : Environment Empty} {values : List (Node Empty)}

/-- A line that does not fail has the value of its last form, if it has one. -/
theorem Plain.converses_cons (h : Plain line) {value : Option (Node Empty)}
    (hvalue : (runAll env (trimmed line)).outcome = .ok value)
    (hrest : Converses (runAll env (trimmed line)).env lines values after) :
    Converses env (line :: lines) (value.toList ++ values) after := by
  have hread := h.readAll_eq
  have houtcome := (outcome_runAll_eq_ok_iff hread).mp hvalue
  rw [env_runAll_of_read hread] at hrest
  rcases List.eq_nil_or_concat' (lineForms line) with hforms | ⟨front, form, hforms⟩
  · rw [hforms] at hread houtcome hrest
    cases houtcome
    exact .silent hread hrest
  · rw [hforms, evaluateForms_concat] at houtcome
    obtain ⟨before, hbefore, hlast⟩ := Run.exists_of_andThen_ok houtcome
    obtain ⟨found, hfound, hdone⟩ := Run.exists_of_andThen_ok hlast
    cases hdone
    rw [hforms, evaluateForms_concat, Run.andThen_of_ok hbefore, Run.andThen_of_ok hfound] at hrest
    rw [hforms] at hread
    exact .speaks hread hbefore hfound rfl hrest

/-- **If no line is the first to fail, all lines come to values.** -/
theorem exists_converses (h : ∀ line ∈ lines, Plain line)
    (hok : ∀ before line rest middle e, lines = before ++ line :: rest →
      ¬ FirstFails env before line middle e) :
    ∃ values after, Converses env lines values after := by
  induction lines generalizing env with
  | nil => exact ⟨[], env, .done env⟩
  | cons line lines ih =>
    obtain ⟨hline, hlines⟩ := List.forall_mem_cons.mp h
    cases houtcome : (runAll env (trimmed line)).outcome with
    | error e => exact absurd ⟨[], .done env, houtcome⟩ (hok [] line lines env e rfl)
    | ok value =>
      have hfrom : ∃ values after, Converses (runAll env (trimmed line)).env lines values after := by
        refine ih hlines ?_
        rintro before failing rest middle e rfl ⟨values, hbefore, he⟩
        exact hok (line :: before) failing rest middle e rfl
          ⟨value.toList ++ values, hline.converses_cons houtcome hbefore, he⟩
      obtain ⟨values, after, hrest⟩ := hfrom
      exact ⟨value.toList ++ values, after, hline.converses_cons houtcome hrest⟩

/-- The value of a last form that has one is what all forms come to. -/
theorem evaluateForms_concat_of_ok {front : List (Node Empty)} {form value : Node Empty}
    {before : Option (Node Empty)} (hfront : (evaluateForms env none front).outcome = .ok before)
    (hform : (evaluate (evaluateForms env none front).env form).outcome = .ok value) :
    (evaluateForms env none (front ++ [form])).outcome = .ok (some value) ∧
      (evaluateForms env none (front ++ [form])).env =
        (evaluate (evaluateForms env none front).env form).env := by
  rw [evaluateForms_concat, Run.andThen_of_ok hfront, Run.andThen_of_ok hform]
  exact ⟨rfl, rfl⟩

/-- **What lines come to one after the other is what all their forms come to.** The value is the last one that
    is printed, if any is. -/
theorem Converses.evaluateForms_eq (h : Converses env lines values after) (last : Option (Node Empty)) :
    (evaluateForms env last (lines.flatMap lineForms)).outcome = .ok (values.getLast?.or last) ∧
      (evaluateForms env last (lines.flatMap lineForms)).env = after := by
  induction h generalizing last with
  | done env => exact ⟨rfl, rfl⟩
  | silent read _ ih =>
    rw [List.flatMap_cons, lineForms, read]
    exact ih last
  | @speaks env middle after line rest front values form value before read front_ok form_ok leaves _ ih =>
    obtain ⟨houtcome, henv⟩ := evaluateForms_concat_of_ok front_ok form_ok
    obtain ⟨houtcome', henv'⟩ := evaluateForms_of_ok houtcome last
    have hforms : lineForms line = front ++ [form] := by
      rw [lineForms, read]
      rfl
    rw [List.flatMap_cons, hforms, evaluateForms_append, Run.andThen_of_ok houtcome', henv', henv, leaves]
    obtain ⟨hrest, hafter⟩ := ih (some value)
    refine ⟨hrest.trans (congrArg Except.ok ?_), hafter⟩
    rw [List.getLast?_cons]
    cases values.getLast? <;> rfl

/-- **The first line that fails is where all forms fail**, with the same error, and what it leaves is what they
    leave. -/
theorem FirstFails.evaluateForms_eq (hline : Plain line) {before : List String} {e : Error Empty}
    (h : FirstFails env before line middle e) (rest : List String) :
    ∃ cause, e = .eval cause ∧
      (evaluateForms env none ((before ++ line :: rest).flatMap lineForms)).outcome = .error cause ∧
      (evaluateForms env none ((before ++ line :: rest).flatMap lineForms)).env =
        (runAll middle (trimmed line)).env := by
  obtain ⟨values, hbefore, he⟩ := h
  obtain ⟨houtcome, henv⟩ := hbefore.evaluateForms_eq none
  obtain ⟨cause, rfl, hcause⟩ := exists_of_outcome_runAll_error hline.readAll_eq he
  obtain ⟨hcause', henv'⟩ := evaluateForms_of_error hcause (values.getLast?.or none)
  refine ⟨cause, rfl, ?_⟩
  rw [List.flatMap_append, List.flatMap_cons, evaluateForms_append, Run.andThen_of_ok houtcome, henv,
    evaluateForms_append, Run.andThen_of_error hcause',
    env_runAll_of_read hline.readAll_eq]
  dsimp only
  exact ⟨rfl, henv'⟩

/-! ## 5. Dialogues -/

/-- What is printed of values: each of them, and a line feed. -/
def printed (values : List (Node Empty)) : String := String.join (values.map fun value => value.text ++ "\n")

namespace Dialogue

/-- Complete texts accepted one after the other; none if one of them ends the dialogue. -/
def acceptAll? (d : Dialogue) (lines : List String) : Option Dialogue :=
  lines.foldlM (fun d line => d.accept? line.toList) d

/-- Lines answered one after the other. -/
def answerAll (d : Dialogue) (lines : List String) : Dialogue :=
  lines.foldl (fun d line => d.answer (trimmed line)) d

theorem acceptAll?_cons (d : Dialogue) (line : String) (rest : List String) :
    d.acceptAll? (line :: rest) = (d.accept? line.toList).bind fun next => next.acceptAll? rest := rfl

theorem acceptAll?_append (d : Dialogue) (lines more : List String) :
    d.acceptAll? (lines ++ more) = (d.acceptAll? lines).bind fun next => next.acceptAll? more :=
  List.foldlM_append

theorem answerAll_cons (d : Dialogue) (line : String) (rest : List String) :
    d.answerAll (line :: rest) = (d.answer (trimmed line)).answerAll rest := rfl

theorem pending_answer (d : Dialogue) (text : String) : (d.answer text).pending = [] := by
  simp only [answer]
  split <;> rfl

theorem answer_of_error (d : Dialogue) {text : String} {e : Error Empty}
    (h : (runAll d.env text).outcome = .error e) :
    d.answer text = ⟨(runAll d.env text).env, [], d.stdout, d.stderr ++ errorText e text⟩ := by
  simp only [answer, h]

theorem answer_of_value (d : Dialogue) {text : String} {value : Node Empty}
    (h : (runAll d.env text).outcome = .ok (some value)) :
    d.answer text = ⟨(runAll d.env text).env, [], d.stdout ++ value.text ++ "\n", d.stderr⟩ := by
  simp only [answer, h]

theorem answer_of_none (d : Dialogue) {text : String} (h : (runAll d.env text).outcome = .ok none) :
    d.answer text = ⟨(runAll d.env text).env, [], d.stdout, d.stderr⟩ := by
  simp only [answer, h]

/-- A line that a dialogue takes is answered, also a blank one, of which nothing comes. -/
theorem accept?_eq (d : Dialogue) (h : Plain line) :
    d.accept? line.toList = some (d.answer (trimmed line)) := by
  rw [accept?, trimmed]
  by_cases hblank : Text.trim line.toList = []
  · rw [hblank, if_pos rfl, answer_of_none d rfl]
    rfl
  · rw [if_neg hblank, h.goesOn]
    rfl

theorem acceptAll?_eq (d : Dialogue) (h : ∀ line ∈ lines, Plain line) :
    d.acceptAll? lines = some (d.answerAll lines) := by
  induction lines generalizing d with
  | nil => rfl
  | cons line rest ih =>
    obtain ⟨hline, hrest⟩ := List.forall_mem_cons.mp h
    rw [acceptAll?_cons, accept?_eq d hline, Option.bind_some, answerAll_cons, ih _ hrest]

end Dialogue

/-- **What lines come to is what a dialogue makes of them**: it prints the values and nothing else. -/
theorem Converses.answerAll_eq (h : Converses env lines values after) (stdout stderr : String) :
    Dialogue.answerAll ⟨env, [], stdout, stderr⟩ lines = ⟨after, [], stdout ++ printed values, stderr⟩ := by
  induction h generalizing stdout with
  | done env => simp [Dialogue.answerAll, printed]
  | @silent env after line rest values read _ ih =>
    have houtcome : (runAll env (trimmed line)).outcome = .ok none := (outcome_runAll_eq_ok_iff read).mpr rfl
    rw [Dialogue.answerAll_cons, Dialogue.answer_of_none ⟨env, [], stdout, stderr⟩ houtcome]
    dsimp only
    rw [env_runAll_of_read read]
    exact ih stdout
  | @speaks env middle after line rest front values form value before read front_ok form_ok leaves _ ih =>
    obtain ⟨houtcome, henv⟩ := evaluateForms_concat_of_ok front_ok form_ok
    have houtcome : (runAll env (trimmed line)).outcome = .ok (some value) :=
      (outcome_runAll_eq_ok_iff read).mpr houtcome
    rw [Dialogue.answerAll_cons, Dialogue.answer_of_value ⟨env, [], stdout, stderr⟩ houtcome]
    dsimp only
    rw [env_runAll_of_read read, henv, leaves, ih]
    simp [printed, String.append_assoc]

/-- **Of a line that fails a dialogue reports the error**, and goes on. -/
theorem Converses.answerAll_concat {e : Error Empty} (h : Converses env lines values middle)
    (he : (runAll middle (trimmed line)).outcome = .error e) (stdout stderr : String) :
    Dialogue.answerAll ⟨env, [], stdout, stderr⟩ (lines ++ [line]) =
      ⟨(runAll middle (trimmed line)).env, [], stdout ++ printed values,
        stderr ++ errorText e (trimmed line)⟩ := by
  rw [Dialogue.answerAll, List.foldl_append]
  show Dialogue.answer (Dialogue.answerAll ⟨env, [], stdout, stderr⟩ lines) (trimmed line) = _
  rw [h.answerAll_eq, Dialogue.answer_of_error ⟨middle, [], stdout ++ printed values, stderr⟩ he]

/-- Lines joined to a program come to what the forms of each come to, one after the other, but for places. -/
theorem alike_runAll_of_lines (h : ∀ line ∈ lines, Plain line) :
    let run := evaluateForms (Environment.standard : Environment Empty) none (lines.flatMap lineForms)
    let whole := runAll (Environment.standard : Environment Empty) ("\n".intercalate lines)
    AlikeResults (run.outcome.mapError .eval) whole.outcome ∧ run.env.Alike whole.env := by
  intro run whole
  obtain ⟨forms, hread, halike⟩ := exists_forms_of_lines h
  have hnone : Node.AlikeIfAny (none : Option (Node Empty)) none := rfl
  obtain ⟨houtcome, henv, _⟩ := (evaluateForms_alike ignoresPlaces halike hnone
    (fun _ => rfl : Environment.standard.Alike .standard)).mapError
  have hwhole : whole = _ := runAll_of_read hread
  rw [Run.env_mapError] at henv
  rw [← Run.outcome_mapError, hwhole]
  exact ⟨houtcome, henv⟩

/-! ## 6. Lines over a pipe -/

/-- A line that comes over a pipe as it is: there is no line feed in it, no backspace, and no carriage return
    at its end. -/
structure Typed (line : String) : Prop where
  oneLine : '\n' ∉ line.toList
  noBackspace : Text.backspace ∉ line.toList
  noReturn : line.toList.getLast? ≠ some '\r'

/-- Lines, each with a line feed behind it. -/
def typed (lines : List String) : String := String.join (lines.map (· ++ "\n"))

theorem splitLineEnd_concat {cs : List Char} (h : cs.getLast? ≠ some '\r') :
    splitLineEnd (cs ++ ['\n']) = (cs, ['\n']) := by
  rw [← List.head?_reverse] at h
  rw [splitLineEnd, List.reverse_append]
  generalize hrev : cs.reverse = rev at h
  obtain rfl := List.reverse_eq_iff.mp hrev
  cases rev with
  | nil => rfl
  | cons c rest =>
    have hc : c ≠ '\r' := fun heq => h (congrArg some heq)
    simp only [List.reverse_singleton, List.singleton_append]
    split
    · rename_i heq
      cases heq
      exact absurd rfl hc
    · rename_i heq
      cases heq
      rfl
    · rename_i hno
      exact absurd rfl (hno _)

/-- A line that comes as it is and is taken is answered. -/
theorem Dialogue.take?_eq {d : Dialogue} (hpending : d.pending = []) (h : Plain line) (ht : Typed line) :
    d.take? (line ++ "\n") = some (d.answer (trimmed line)) := by
  have hsplit : splitLineEnd (d.pending ++ (line ++ "\n").toList) = (line.toList, ['\n']) := by
    rw [hpending, List.nil_append, String.toList_append]
    exact splitLineEnd_concat ht.noReturn
  simp only [take?, hsplit, Text.applyBackspaces_of_notMem ht.noBackspace, String.ofList_toList, h.complete,
    accept?_eq d h]

/-- The bytes of a text are those of its characters. -/
theorem bytes_eq (text : String) :
    text.toUTF8.data.toList = text.toList.flatMap String.utf8EncodeChar := by
  conv_lhs => rw [← String.ofList_toList (s := text)]
  rw [String.toUTF8_eq_toByteArray, String.toByteArray_ofList]
  exact List.toList_data_toByteArray

/-- Only a line feed has its byte. -/
theorem lineFeed_notMem_utf8EncodeChar {c : Char} (h : c ≠ '\n') : lineFeed ∉ String.utf8EncodeChar c := by
  have hval : c.val.toNat ≠ 10 := fun heq => h (Char.toNat_inj.mp heq)
  have hne : ∀ n, n % 256 ≠ 10 → lineFeed ≠ UInt8.ofNat n := by
    intro n hn heq
    have htoNat := congrArg UInt8.toNat heq
    rw [UInt8.toNat_ofNat'] at htoNat
    exact hn htoNat.symm
  -- all bytes of a character of several bytes are 128 or more
  have hmark : ∀ n mark, 128 ≤ mark → n + mark < 256 → lineFeed ≠ UInt8.ofNat (n + mark) :=
    fun n mark _ _ => hne _ (by omega)
  simp only [String.utf8EncodeChar]
  split
  · rw [List.mem_singleton]
    exact hne _ (by omega)
  split
  · simp only [List.mem_cons, List.not_mem_nil, or_false, not_or]
    exact ⟨hmark _ _ (by decide) (by omega), hmark _ _ (by decide) (by omega)⟩
  split
  · simp only [List.mem_cons, List.not_mem_nil, or_false, not_or]
    exact ⟨hmark _ _ (by decide) (by omega), hmark _ _ (by decide) (by omega),
      hmark _ _ (by decide) (by omega)⟩
  · simp only [List.mem_cons, List.not_mem_nil, or_false, not_or]
    exact ⟨hmark _ _ (by decide) (by omega), hmark _ _ (by decide) (by omega),
      hmark _ _ (by decide) (by omega), hmark _ _ (by decide) (by omega)⟩

theorem toList_loop_eq (bytes : ByteArray) (i : Nat) (acc : List UInt8) :
    ByteArray.toList.loop bytes i acc = acc.reverse ++ bytes.data.toList.drop i := by
  induction i, acc using ByteArray.toList.loop.induct bytes with
  | case1 i acc h ih =>
    have hi : i < bytes.data.toList.length := h
    rw [ByteArray.toList.loop, if_pos h, ih, List.drop_eq_getElem_cons hi]
    simp [ByteArray.get!, h]
  | case2 i acc h =>
    have hi : bytes.data.toList.length ≤ i := Nat.le_of_not_lt h
    rw [ByteArray.toList.loop, if_neg h, List.drop_of_length_le hi, List.append_nil]

theorem byteLines_append {bytes : List UInt8} (h : lineFeed ∉ bytes) (rest : List UInt8) :
    byteLines (bytes ++ lineFeed :: rest) = (bytes ++ [lineFeed]) :: byteLines rest := by
  induction bytes with
  | nil => rfl
  | cons b bytes ih =>
    obtain ⟨hb, hbytes⟩ := List.ne_and_not_mem_of_not_mem_cons h
    rw [List.cons_append, byteLines, if_neg hb.symm, ih hbytes]
    rfl

/-- The first line of those that come over a pipe is the first one. -/
theorem byteLines_typed_cons (h : Typed line) (rest : List String) :
    byteLines (typed (line :: rest)).toUTF8.data.toList =
      (line ++ "\n").toUTF8.data.toList :: byteLines (typed rest).toUTF8.data.toList := by
  have hline : lineFeed ∉ line.toList.flatMap String.utf8EncodeChar := by
    rw [List.mem_flatMap]
    rintro ⟨c, hc, hmem⟩
    exact lineFeed_notMem_utf8EncodeChar (fun heq => h.oneLine (heq ▸ hc)) hmem
  have hconcat : (line ++ "\n").toList.flatMap String.utf8EncodeChar =
      line.toList.flatMap String.utf8EncodeChar ++ [lineFeed] := by
    rw [String.toList_append, List.flatMap_append]
    rfl
  have htyped : (typed (line :: rest)).toList = (line ++ "\n").toList ++ (typed rest).toList := by
    rw [← String.toList_append]
    simp [typed]
  rw [bytes_eq, bytes_eq, bytes_eq, htyped, List.flatMap_append, hconcat, List.append_assoc]
  exact byteLines_append hline _

theorem fromUTF8?_toUTF8 (text : String) : String.fromUTF8? text.toUTF8 = some text := by
  have h : text.toUTF8.IsValidUTF8 := text.isValidUTF8
  rw [String.fromUTF8?, dif_pos h]
  rfl

/-- **Over a pipe, lines are answered one after the other**, up to the end of the input. -/
theorem converse_typed {d : Dialogue} (hpending : d.pending = []) (h : ∀ line ∈ lines, Plain line)
    (ht : ∀ line ∈ lines, Typed line) :
    d.converse (byteLines (typed lines).toUTF8.data.toList) =
      ⟨0, (d.answerAll lines).stdout ++ "\nExiting.\n", (d.answerAll lines).stderr⟩ := by
  induction lines generalizing d with
  | nil => rfl
  | cons line rest ih =>
    obtain ⟨hline, hrest⟩ := List.forall_mem_cons.mp h
    obtain ⟨htline, htrest⟩ := List.forall_mem_cons.mp ht
    have htext : String.fromUTF8? ⟨(line ++ "\n").toUTF8.data.toList.toArray⟩ = some (line ++ "\n") :=
      fromUTF8?_toUTF8 (line ++ "\n")
    rw [byteLines_typed_cons htline, Dialogue.converse, htext]
    dsimp only
    rw [Dialogue.take?_eq hpending hline htline, Dialogue.answerAll_cons]
    exact ih (d.pending_answer _) hrest htrest

/-! ## 7. The result -/

/-- A value that is printed is the one that the program prints, which knows no places. -/
theorem stdout_runText_of_alike {text : String} {value : Option (Node Empty)}
    (h : AlikeResults (.ok value) (runAll (Environment.standard : Environment Empty) text).outcome) :
    (runText text).stdout = printed value.toList := by
  unfold runText
  generalize (runAll (Environment.standard : Environment Empty) text).outcome = outcome at h
  cases h with
  | @value _ other hvalue =>
    cases value with
    | none =>
      obtain rfl := Option.map_eq_none_iff.mp hvalue.symm
      rfl
    | some value =>
      obtain ⟨other, rfl, hother⟩ := Option.map_eq_some_iff.mp hvalue.symm
      simp [printed, Node.text_eq_of_bare_eq hother]

/-- **A dialogue is one program, told line by line.** Of lines that a dialogue takes and of which it trims
    nothing but separators, suppose that none fails. Then the dialogue leaves the environment that all lines
    leave when they are joined by line feeds and run as one program, but for places. It prints one value for
    each line that has a form, that of its last form, and the last of them is the value of the program. If a
    line fails, and those before it do not, the dialogue reports the error and is left with the environment
    that the program stops in, and the errors are the same but for places. But then the dialogue goes on in
    this environment with the lines that are left. Over a pipe, this is what the whole run of it prints. -/
theorem dialogue_is_one_program {lines : List String} (h : ∀ line ∈ lines, Plain line) (history : Bool) :
    let program := "\n".intercalate lines
    let whole := runAll (Environment.standard : Environment Empty) program
    let d := Dialogue.start history
    ((∀ before line rest middle e, lines = before ++ line :: rest →
        ¬ FirstFails .standard before line middle e) →
      ∃ values after, Converses .standard lines values after ∧
        d.acceptAll? lines = some ⟨after, [], d.stdout ++ printed values, d.stderr⟩ ∧
        after.Alike whole.env ∧ AlikeResults (.ok values.getLast?) whole.outcome ∧
        (runText program).stdout = printed values.getLast?.toList) ∧
    (∀ before line rest middle e, lines = before ++ line :: rest →
      FirstFails .standard before line middle e →
      ∃ values, Converses .standard before values middle ∧
        let next : Dialogue := ⟨(runAll middle (trimmed line)).env, [], d.stdout ++ printed values,
          d.stderr ++ errorText e (trimmed line)⟩
        d.acceptAll? (before ++ [line]) = some next ∧ next.env.Alike whole.env ∧
        AlikeResults (.error e) whole.outcome ∧ d.acceptAll? lines = next.acceptAll? rest ∧
        ∃ last, next.acceptAll? rest = some last) ∧
    ((∀ line ∈ lines, Typed line) →
      ∃ last, d.acceptAll? lines = some last ∧
        dialogue history (typed lines).toUTF8 = ⟨0, last.stdout ++ "\nExiting.\n", last.stderr⟩) := by
  intro program whole d
  obtain ⟨hresult, henv⟩ := alike_runAll_of_lines h
  refine ⟨fun hok => ?ok, ?fails, fun htyped => ⟨_, Dialogue.acceptAll?_eq d h, ?pipe⟩⟩
  case ok =>
    obtain ⟨values, after, hvalues⟩ := exists_converses h hok
    obtain ⟨houtcome, rfl⟩ := hvalues.evaluateForms_eq none
    rw [houtcome, Option.or_none] at hresult
    refine ⟨values, _, hvalues, ?_, henv, hresult, stdout_runText_of_alike hresult⟩
    rw [Dialogue.acceptAll?_eq d h]
    exact congrArg some (hvalues.answerAll_eq d.stdout d.stderr)
  case fails =>
    rintro before line rest middle e rfl hfails
    obtain ⟨hbefore, hothers⟩ := List.forall_mem_append.mp h
    obtain ⟨hline, hrest⟩ := List.forall_mem_cons.mp hothers
    obtain ⟨cause, rfl, hcause, hleft⟩ := hfails.evaluateForms_eq hline rest
    obtain ⟨values, hvalues, he⟩ := hfails
    rw [hcause] at hresult
    rw [hleft] at henv
    refine ⟨values, hvalues, ?_⟩
    intro next
    have hnext : d.acceptAll? (before ++ [line]) = some next := by
      rw [Dialogue.acceptAll?_eq d (List.forall_mem_append.mpr ⟨hbefore, List.forall_mem_singleton.mpr hline⟩)]
      exact congrArg some (hvalues.answerAll_concat he d.stdout d.stderr)
    refine ⟨hnext, henv, hresult, ?_, _, Dialogue.acceptAll?_eq next hrest⟩
    rw [List.append_cons, Dialogue.acceptAll?_append, hnext, Option.bind_some]
  case pipe =>
    have hbytes : (typed lines).toUTF8.toList = (typed lines).toUTF8.data.toList := toList_loop_eq _ 0 []
    rw [dialogue, hbytes]
    exact converse_typed rfl h htyped

/-- The third of four lines fails. What the first one has bound stays bound, and the last line finds it. -/
theorem dialogue_is_one_program_of_unbound :
    let lines := ["(define r pi) ", "", "x", "r"]
    let whole := runAll (Environment.standard : Environment Empty) ("\n".intercalate lines)
    let pi : Node Empty := .number Environment.pi Span.nowhere
    let bound : Environment Empty := Environment.standard.define "r" pi
    let e : Error Empty := .eval (.unbound "x" ⟨0, 1⟩)
    (∀ line ∈ lines, Plain line) ∧ FirstFails .standard ["(define r pi) ", ""] "x" bound e ∧
      (runAll bound (trimmed "x")).env.Alike whole.env ∧ AlikeResults (.error e) whole.outcome := by
  intro lines whole pi bound e
  have hplain : ∀ line ∈ lines, Plain line := by
    simp only [lines, List.forall_mem_cons]
    refine ⟨⟨by decide, by decide, ?_⟩, ⟨by decide, by decide, ?_⟩, ⟨by decide, by decide, ?_⟩,
      ⟨by decide, by decide, ?_⟩, nofun⟩ <;> exact List.all_eq_true.mp (by decide)
  let form : Node Empty :=
    .list [.symbol "define" ⟨1, 7⟩, .symbol "r" ⟨8, 9⟩, .symbol "pi" ⟨10, 12⟩] ⟨0, 13⟩
  have hread : readAll (tokenize (trimmed "(define r pi) ")) = .ok ([] ++ [form]) := by
    rw [trimmed]
    rfl
  have hblank : readAll (ω := Empty) (tokenize (trimmed "")) = .ok [] := by
    rw [trimmed]
    rfl
  let unbound : Node Empty := .symbol "x" ⟨0, 1⟩
  have hx : readAll (tokenize (trimmed "x")) = .ok [unbound] := by
    rw [trimmed]
    rfl
  have hform : evaluate .standard form = ⟨.ok pi, bound, [.defined "r" pi]⟩ :=
    evaluate_define_of_ok rfl (evaluate_of_bound Environment.get?_standard_pi _) "r" _ _
  have hunbound : bound.get? "x" = none := by
    rw [Environment.get?_define_of_ne (by decide)]
    exact Environment.get?_standard_of_notMem (by decide)
  have hfails : FirstFails .standard ["(define r pi) ", ""] "x" bound e := by
    refine ⟨[pi], .speaks hread rfl (congrArg Run.outcome hform) (congrArg Run.env hform)
      (.silent hblank (.done bound)), ?_⟩
    rw [runAll_of_read hx, evaluateForms, evaluate_of_unbound hunbound]
    rfl
  obtain ⟨values, _, _, henv, hresult, _⟩ := (dialogue_is_one_program hplain true).2.1 _ _ ["r"] _ _ rfl hfails
  exact ⟨hplain, hfails, henv, hresult⟩

end Console

end MiniLisp
