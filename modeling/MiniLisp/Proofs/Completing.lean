import MiniLisp.Completion
import MiniLisp.Proofs.Names
import MiniLisp.Proofs.Runs

/-!
# Completing: what is offered at a cursor

What is offered depends on the atom that the cursor touches from behind, and on the names there are. This file
fixes both:

* `getLast?_tokensFrom_run`: where characters end in a longest run, the run is the last token and ends where they
  do. So it is the atom before a cursor (`atomBefore?_run`); without such a run there is none
  (`atomBefore?_of_apart`);
* `candidates_eq`: only that atom matters. What is offered to it is the rest of each name that begins so, each once
  and in order (`Environment.mem_completions`, `Environment.pairwise_completions`);
* `Environment.Reachable.isName_of_completable`: in a session every name that may be completed is a name that can
  be written;
* **`completion_lands_on_names`**: the result. What is offered completes the atom before the cursor to a name,
  and written there it is read as that name.
-/

namespace MiniLisp

variable {ω : Type}

/-! ## 1. The atom before the cursor -/

/-- The characters before a place are those that are written before it. -/
theorem charsBefore_append (as bs : List Char) : charsBefore (byteLength as) (as ++ bs) = as := by
  induction as with
  | nil =>
    cases bs with
    | nil => rfl
    | cons b bs => exact if_neg (Nat.not_le_of_lt b.utf8Size_pos)
  | cons a as ih =>
    rw [byteLength_cons, List.cons_append, charsBefore, if_pos (Nat.le_add_right _ _), Nat.add_sub_cancel_left, ih]

/-- **A longest run at the end is the last token.** -/
theorem getLast?_tokensFrom_run {front run : List Char} (hfront : ∀ c ∈ front.getLast?, isAtomChar c = false)
    (hne : run ≠ []) (hrun : ∀ c ∈ run, isAtomChar c = true) :
    (tokensFrom 0 (front ++ run)).getLast? =
      some ⟨.atom (String.ofList run), ⟨byteLength front, byteLength (front ++ run)⟩⟩ := by
  rw [tokensFrom_last_run hfront hne hrun, List.getLast?_concat, Nat.zero_add, byteLength_append]

/-- It is the atom before a cursor that stands behind it. -/
theorem atomBefore?_run {front run : List Char} (hfront : ∀ c ∈ front.getLast?, isAtomChar c = false)
    (hne : run ≠ []) (hrun : ∀ c ∈ run, isAtomChar c = true) :
    atomBefore? (front ++ run) = some (String.ofList run) := by
  rw [atomBefore?, getLast?_tokensFrom_run hfront hne hrun]
  exact if_pos rfl

/-- An atom before the cursor is what the characters end in. -/
theorem exists_eq_append_of_atomBefore? {cs : List Char} {text : String} (h : atomBefore? cs = some text) :
    ∃ front, cs = front ++ text.toList ∧ text.toList ≠ [] ∧ ∀ c ∈ text.toList, isAtomChar c = true := by
  unfold atomBefore? at h
  split at h
  · rename_i atom span hlast
    split at h
    · rename_i hstop
      cases h
      have hmem : (⟨.atom text, span⟩ : Token) ∈ tokensFrom 0 cs := List.mem_of_getLast? hlast
      have hcut := cut_tokensFrom 0 cs
      have htext : (⟨.atom text, span⟩ : Token).text = text := rfl
      have hne := hcut.toList_text_ne_nil hmem
      have hslice := hcut.slices _ hmem
      rw [htext] at hne hslice
      obtain ⟨front, back, hcs, hstart, hend⟩ : span.Selects 0 cs text.toList := hslice
      have hback : back = [] := by
        -- no byte stands behind the atom
        have hzero : byteLength back = 0 := by
          rw [hcs, byteLength_append, byteLength_append] at hstop
          omega
        exact Classical.byContradiction fun hne => Nat.ne_of_gt (byteLength_pos hne) hzero
      refine ⟨front, ?_, hne, fun c hc => isAtomChar_iff.mpr (hcut.atoms _ hmem text rfl c hc)⟩
      rw [hcs, hback, List.append_nil]
    · cases h
  · cases h

/-- **No atom is before the cursor if the characters end in none.** -/
theorem atomBefore?_of_apart {cs : List Char} (h : ∀ c ∈ cs.getLast?, isAtomChar c = false) :
    atomBefore? cs = none := by
  cases hatom : atomBefore? cs with
  | none => rfl
  | some text =>
    obtain ⟨front, rfl, hne, hrun⟩ := exists_eq_append_of_atomBefore? hatom
    have hlast : text.toList.getLast hne ∈ (front ++ text.toList).getLast? := by
      rw [List.getLast?_append_of_ne_nil front hne, List.getLast?_eq_some_getLast hne]
      exact Option.mem_some_self _
    have hfalse := h _ hlast
    rw [hrun _ (List.getLast_mem hne)] at hfalse
    cases hfalse

/-! ## 2. The rests of names -/

/-- What is left of a name behind its beginning is what makes it up from the beginning. -/
theorem restOfName?_eq_some_iff {beginning name rest : String} :
    restOfName? beginning name = some rest ↔ name = beginning ++ rest := by
  rw [← String.toList_inj, String.toList_append]
  unfold restOfName?
  constructor
  · intro h
    split at h
    · rename_i hprefix
      obtain ⟨more, hmore⟩ := List.isPrefixOf_iff_prefix.mp hprefix
      cases h
      rw [← hmore, List.drop_left, String.toList_ofList]
    · cases h
  · intro h
    have hprefix : beginning.toList.isPrefixOf name.toList = true :=
      List.isPrefixOf_iff_prefix.mpr ⟨rest.toList, h.symm⟩
    rw [if_pos hprefix, h, List.drop_left, String.ofList_toList]

namespace Environment

variable {env : Environment ω}

theorem mem_completable {name : String} :
    name ∈ env.completable ↔ env.contains name = true ∨ name ∈ specialForms := by
  rw [completable, List.mem_append, List.mem_filter, mem_names, Bool.not_eq_true']
  constructor
  · intro h
    exact h.imp_right And.left
  · intro h
    cases hbound : env.contains name with
    | true => exact .inl rfl
    | false =>
      rw [hbound] at h
      exact .inr ⟨h.resolve_left Bool.false_ne_true, rfl⟩

/-- **A special form that is bound is completed as one name.** -/
theorem nodup_completable (env : Environment ω) : env.completable.Nodup := by
  have hforms : specialForms.Nodup := by decide
  refine List.nodup_append.mpr ⟨env.nodup_names, hforms.filter _, fun name hname other hform heq => ?_⟩
  have hunbound := (List.mem_filter.mp hform).2
  rw [← heq, mem_names.mp hname] at hunbound
  cases hunbound

/-- What is offered to a beginning. -/
def completions (env : Environment ω) (beginning : String) : List String :=
  (env.completable.filterMap (restOfName? beginning)).mergeSort

/-- **The rests of the names that begin so are offered, and nothing else.** -/
theorem mem_completions {beginning rest : String} :
    rest ∈ env.completions beginning ↔
      env.contains (beginning ++ rest) = true ∨ beginning ++ rest ∈ specialForms := by
  rw [completions, List.mem_mergeSort, List.mem_filterMap, ← mem_completable]
  constructor
  · intro ⟨name, hname, hrest⟩
    rwa [← restOfName?_eq_some_iff.mp hrest]
  · intro h
    exact ⟨beginning ++ rest, h, restOfName?_eq_some_iff.mpr rfl⟩

/-- **They are offered in the order of code points, each of them once.** -/
theorem pairwise_completions (env : Environment ω) (beginning : String) :
    (env.completions beginning).Pairwise (· < ·) := by
  have hrests : (env.completable.filterMap (restOfName? beginning)).Nodup := by
    refine List.Pairwise.filterMap _ (fun name other hne rest hrest more hmore heq => hne ?_) env.nodup_completable
    rw [restOfName?_eq_some_iff.mp hrest, restOfName?_eq_some_iff.mp hmore, heq]
  have hnodup : (env.completions beginning).Nodup := (List.mergeSort_perm _ _).nodup_iff.mpr hrests
  have hsorted : (env.completions beginning).Pairwise fun a b => decide (a ≤ b) = true := by
    refine List.pairwise_mergeSort (fun a b c hab hbc => ?_) (fun a b => ?_) _
    · exact decide_eq_true (String.le_trans (of_decide_eq_true hab) (of_decide_eq_true hbc))
    · rw [Bool.or_eq_true, decide_eq_true_eq, decide_eq_true_eq]
      exact String.le_total a b
  refine hsorted.imp₂ (fun a b hle hne => ?_) hnodup
  exact String.not_le.mp fun hge => hne (String.le_antisymm (of_decide_eq_true hle) hge)

end Environment

/-- **The names that may be completed, if what is before the cursor ends in an atom**, and nothing else. What
    stands behind the cursor makes no difference. -/
theorem candidates_eq (env : Environment ω) (front back : String) :
    candidates env (front ++ back) front.utf8ByteSize =
      match atomBefore? front.toList with
      | some beginning => env.completions beginning
      | none => [] := by
  rw [candidates, String.toList_append, ← byteLength_toList, charsBefore_append]
  rfl

/-! ## 3. Names that can be written -/

/-- **A name at the end of a text is the last atom**, where no atom runs on into it. -/
theorem getLast?_tokenize_of_isName {before name : String} (h : IsName name)
    (hbefore : ∀ c ∈ before.toList.getLast?, isAtomChar c = false) :
    (tokenize (before ++ name)).getLast? =
      some ⟨.atom name, ⟨before.utf8ByteSize, (before ++ name).utf8ByteSize⟩⟩ := by
  have hlast := getLast?_tokensFrom_run hbefore h.toList_ne_nil h.isAtomChar
  rwa [← String.toList_append, String.ofList_toList, byteLength_toList, byteLength_toList] at hlast

theorem isName_defineWord : IsName defineWord := ⟨by decide, by simp [defineWord], rfl⟩

/-- **What may be completed to can be written**, as texts bind nothing else. -/
theorem Environment.Reachable.isName_of_completable [Operation ω] {env : Environment ω} (h : env.Reachable)
    {name : String} (hname : env.contains name = true ∨ name ∈ specialForms) : IsName name := by
  rcases hname with hbound | hform
  · rw [contains_eq_isSome_get?] at hbound
    obtain ⟨value, hvalue⟩ := Option.isSome_iff_exists.mp hbound
    exact h.named name value hvalue
  · rw [specialForms, List.mem_singleton] at hform
    rw [hform]
    exact isName_defineWord

/-- Behind a last character of an atom, a longest run ends the text. -/
theorem exists_text_run {text : String} {c : Char} (hc : c ∈ text.toList.getLast?)
    (hatom : isAtomChar c = true) :
    ∃ before run : String, text = before ++ run ∧ run.toList ≠ [] ∧ (∀ d ∈ run.toList, isAtomChar d = true) ∧
      ∀ d ∈ before.toList.getLast?, isAtomChar d = false := by
  obtain ⟨before, run, htext, hrun⟩ := exists_last_run hc hatom
  refine ⟨String.ofList before, String.ofList run, ?_, ?_⟩
  · rw [← String.ofList_append, ← htext, String.ofList_toList]
  · rwa [String.toList_ofList, String.toList_ofList]

/-- **What is offered at a cursor.** If nothing is written before it, or a parenthesis or a separator is the last
    character before it, nothing is offered. Else a longest run of other characters ends there. What is offered
    makes up, with this run in front, the names that are bound and the special forms that begin so, all of them,
    and is in the order of code points without repetition. And in a session, whatever is offered, the text that
    has it written at the cursor ends in an atom that is read as the symbol of such a name. -/
theorem completion_lands_on_names [Operation ω] (env : Environment ω) (front back : String) :
    let offered := candidates env (front ++ back) front.utf8ByteSize
    ((∀ c ∈ front.toList.getLast?, c ∈ [' ', '\t', '\n', '\r', '\x0c', '(', ')']) → offered = []) ∧
    ∀ c ∈ front.toList.getLast?, c ∉ [' ', '\t', '\n', '\r', '\x0c', '(', ')'] →
      ∃ before run, front = before ++ run ∧ run ≠ "" ∧
        (∀ d ∈ run.toList, d ∉ [' ', '\t', '\n', '\r', '\x0c', '(', ')']) ∧
        (∀ d ∈ before.toList.getLast?, d ∈ [' ', '\t', '\n', '\r', '\x0c', '(', ')']) ∧
        (∀ rest, rest ∈ offered ↔ env.contains (run ++ rest) = true ∨ run ++ rest ∈ specialForms) ∧
        offered.Pairwise (· < ·) ∧
        (env.Reachable → ∀ rest ∈ offered,
          (tokenize (front ++ rest)).getLast? =
            some ⟨.atom (run ++ rest), ⟨before.utf8ByteSize, (front ++ rest).utf8ByteSize⟩⟩ ∧
          (∀ span, (Node.ofAtom (run ++ rest) span : Node ω) = .symbol (run ++ rest) span) ∧
          (env.contains (run ++ rest) = true ∨ run ++ rest ∈ specialForms)) := by
  intro offered
  have hoffered : offered = _ := candidates_eq env front back
  constructor
  · intro h
    have hnone := atomBefore?_of_apart fun c hc => isAtomChar_eq_false_iff.mpr (h c hc)
    rw [hoffered, hnone]
  · intro c hc hatom
    obtain ⟨before, run, rfl, hne, hrun, hbefore⟩ := exists_text_run hc (isAtomChar_iff.mpr hatom)
    have hsome := atomBefore?_run hbefore hne hrun
    rw [← String.toList_append, String.ofList_toList] at hsome
    rw [hsome] at hoffered
    have hmem : ∀ rest, rest ∈ offered ↔ env.contains (run ++ rest) = true ∨ run ++ rest ∈ specialForms := by
      intro rest
      rw [hoffered]
      exact Environment.mem_completions
    refine ⟨before, run, rfl, fun hempty => hne (String.toList_eq_nil_iff.mpr hempty),
      fun d hd => isAtomChar_iff.mp (hrun d hd), fun d hd => isAtomChar_eq_false_iff.mp (hbefore d hd), hmem,
      hoffered ▸ env.pairwise_completions run, fun hreachable rest hrest => ?_⟩
    have hname : IsName (run ++ rest) := hreachable.isName_of_completable ((hmem rest).mp hrest)
    rw [String.append_assoc]
    exact ⟨getLast?_tokenize_of_isName hname hbefore, hname.ofAtom_eq, (hmem rest).mp hrest⟩

/-- After a text that binds a name with letters of two bytes, the cursor stands behind two of its characters. The
    rest of it is offered, though other characters of an atom stand behind the cursor, and written there the
    rest ends the name. Behind a blank nothing is offered. -/
theorem completion_lands_on_names_of_accented :
    let env : Environment Empty := (runAll .standard "(define pâté pi)").env
    env.Reachable ∧ candidates env ("(pâ" ++ "+)") "(pâ".utf8ByteSize = ["té"] ∧
      (∃ before run, "(pâ" = before ++ run ∧ run ≠ "" ∧
        (env.contains (run ++ "té") = true ∨ run ++ "té" ∈ specialForms) ∧
        (∀ span, (Node.ofAtom (run ++ "té") span : Node Empty) = .symbol (run ++ "té") span) ∧
        (tokenize ("(pâ" ++ "té")).getLast? =
          some ⟨.atom (run ++ "té"), ⟨before.utf8ByteSize, ("(pâ" ++ "té").utf8ByteSize⟩⟩) ∧
      candidates env ("(pâ " ++ "+)") "(pâ ".utf8ByteSize = [] := by
  intro env
  have hread : readAll (ω := Empty) (tokenize "(define pâté pi)") =
      .ok [.list [.symbol "define" ⟨1, 7⟩, .symbol "pâté" ⟨8, 14⟩, .symbol "pi" ⟨15, 17⟩] ⟨0, 18⟩] := rfl
  have henv : env = Environment.standard.define "pâté" (.number Environment.pi Span.nowhere) := by
    simp only [env, runAll_of_alias hread Environment.get?_standard_pi]
  have hreachable : env.Reachable := .all _ .standard
  have hoffered : candidates env ("(pâ" ++ "+)") "(pâ".utf8ByteSize = ["té"] := by
    rw [henv]
    decide +kernel
  refine ⟨hreachable, hoffered, ?_, (completion_lands_on_names env "(pâ " "+)").1 ?_⟩
  · obtain ⟨before, run, hfront, hne, _, _, _, _, hlands⟩ :=
      (completion_lands_on_names env "(pâ" "+)").2 'â' rfl (by decide)
    rw [hoffered] at hlands
    obtain ⟨hlast, hsymbol, hname⟩ := hlands hreachable "té" (List.mem_singleton_self _)
    exact ⟨before, run, hfront, hne, hname, hsymbol, hlast⟩
  · have hblank : "(pâ ".toList.getLast? = some ' ' := rfl
    intro c hc
    rw [hblank, Option.mem_some_iff] at hc
    exact hc ▸ List.mem_cons_self

end MiniLisp
