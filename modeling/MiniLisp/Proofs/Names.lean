import MiniLisp.Proofs.Replay
import MiniLisp.Proofs.Values

/-!
# Names: what texts can bind values to

A host may bind any string. A text binds what it can write, so whatever it has bound it can ask for
again. This file fixes:

* `IsName`: the strings that are one atom and no number. The symbols that are read are named so
  (`Node.Readable.isName`), and as a text such a string is that one symbol (`IsName.tokenize_eq`);
* `Environment.Named`: nothing but names is bound. An evaluation of what can be read keeps this
  (`named_law`), and so do texts;
* `runFirst_of_bound`: a bound name, run as a text, has the value it is bound to, and nothing else
  happens;
* `Environment.Reachable.named`, `Environment.Reachable.isSome_get?`: in every environment of a session
  nothing but names is bound, and what is bound in the beginning still is;
* **`session_binds_values_to_names`**: the invariant of sessions, values and names together.
-/

namespace MiniLisp

variable {ω : Type}

/-! ## 1. Names -/

/-- The strings that are one atom and no number. -/
structure IsName (name : String) : Prop where
  nonempty : name ≠ ""
  chars : ∀ c ∈ name.toList, c ∉ [' ', '\t', '\n', '\r', '\x0c', '(', ')']
  symbol : Number.finite? name = none

/-- Symbols that are read have such names. -/
theorem Node.Readable.isName {name : String} {span : Span}
    (h : (Node.symbol name span : Node ω).Readable) : IsName name := by
  cases h with
  | symbol _ _ nonempty chars kind =>
    refine ⟨nonempty, chars, ?_⟩
    cases hx : Number.finite? name with
    | none => rfl
    | some x =>
      rw [Node.ofAtom, hx] at kind
      exact absurd rfl kind

namespace IsName

variable {name : String}

theorem toList_ne_nil (h : IsName name) : name.toList ≠ [] :=
  fun hnil => h.nonempty (String.toList_eq_nil_iff.mp hnil)

theorem isAtomChar (h : IsName name) : ∀ c ∈ name.toList, isAtomChar c = true :=
  fun c hc => isAtomChar_iff.mpr (h.chars c hc)

theorem ofAtom_eq (h : IsName name) (span : Span) :
    (Node.ofAtom name span : Node ω) = .symbol name span := by
  rw [Node.ofAtom, h.symbol]

/-- **As a text, a name is one atom.** -/
theorem tokenize_eq (h : IsName name) :
    tokenize name = [⟨.atom name, ⟨0, byteLength name.toList⟩⟩] := by
  rw [tokenize, tokensFrom_atom h.toList_ne_nil h.isAtomChar, String.ofList_toList, Nat.zero_add]

theorem readOne_tokenize (h : IsName name) :
    readOne (tokenize name) =
      (.ok (.symbol name ⟨0, byteLength name.toList⟩ : Node ω), []) := by
  rw [h.tokenize_eq, ← h.ofAtom_eq]
  rfl

end IsName

/-- **A bound name, run as a text, has the value it is bound to, and nothing is changed.** -/
theorem runFirst_of_bound [Operation ω] {env : Environment ω} {name : String} (h : IsName name)
    {value : Node ω} (hvalue : env.get? name = some value) :
    runFirst env name = ⟨.ok value, env, [.tokenized 1]⟩ := by
  rw [runFirst_of_read (congrArg Prod.fst h.readOne_tokenize), evaluate_of_bound hvalue, h.tokenize_eq]
  rfl

/-! ## 2. What is bound to names alone -/

namespace Environment

/-- Nothing but names is bound. -/
def Named (env : Environment ω) : Prop := ∀ name value, env.get? name = some value → IsName name

theorem Named.define {env : Environment ω} (h : env.Named) {name : String} (hname : IsName name)
    (value : Node ω) : (env.define name value).Named := by
  intro other found hfound
  rw [get?_define] at hfound
  split at hfound
  · rename_i heq
    exact heq ▸ hname
  · exact h other found hfound

theorem isName_sequenceName : IsName sequenceName := ⟨by decide, by simp [sequenceName], rfl⟩

theorem named_standard : (standard : Environment ω).Named := by
  have hempty : (empty : Environment ω).Named := by
    intro name value h
    rw [get?_empty] at h
    cases h
  have hpi : IsName "pi" := ⟨by decide, by simp, rfl⟩
  have hstar : IsName "*" := ⟨by decide, by simp, rfl⟩
  exact ((hempty.define hpi _).define hstar _).define isName_sequenceName _

end Environment

section Evaluating

variable [Operation ω]

/-- **Whatever is read, its evaluation binds nothing but names.** -/
theorem named_law :
    Law (fun (env : Environment ω) n r => env.Named → n.Readable → r.env.Named)
      (fun env ns r => env.Named → (∀ n ∈ ns, n.Readable) → r.env.Named) where
  number _ _ _ henv _ := henv
  procedure _ _ _ henv _ := henv
  bound _ _ _ _ _ henv _ := henv
  unbound _ _ _ _ henv _ := henv
  empty _ _ henv _ := henv
  count _ _ _ _ _ henv _ := henv
  target _ _ _ _ _ _ henv _ := henv
  define _ t name u expression s value _ _ h henv hn := by
    have hname : (Node.symbol name u : Node ω).Readable := hn.items _ (by simp)
    exact (h henv (hn.items expression (by simp))).define hname.isName value
  defineFails _ _ _ _ expression _ _ _ _ h henv hn := h henv (hn.items expression (by simp))
  head _ _ _ _ _ _ _ henv _ := henv
  call _ _ _ _ _ _ _ _ _ _ h henv hn := h henv (List.forall_mem_cons.mp hn.items).2
  callFails _ _ _ _ _ _ _ _ _ _ h henv hn := h henv (List.forall_mem_cons.mp hn.items).2
  nil _ henv _ := henv
  cons _ _ _ _ _ _ _ _ _ h hrest henv hn := by
    obtain ⟨hfirst, hothers⟩ := List.forall_mem_cons.mp hn
    exact hrest (h henv hfirst) hothers
  firstFails _ _ _ _ _ _ h henv hn := h henv (List.forall_mem_cons.mp hn).1
  restFails _ _ _ _ _ _ _ _ _ h hrest henv hn := by
    obtain ⟨hfirst, hothers⟩ := List.forall_mem_cons.mp hn
    exact hrest (h henv hfirst) hothers

theorem evaluateForms_named {forms : List (Node ω)} (hforms : ∀ form ∈ forms, form.Readable)
    {env : Environment ω} (henv : env.Named) (last : Option (Node ω)) :
    (evaluateForms env last forms).env.Named := by
  induction forms generalizing env last with
  | nil => exact henv
  | cons form rest ih =>
    obtain ⟨hform, hrest⟩ := List.forall_mem_cons.mp hforms
    have hafter := named_law.evaluate env form henv hform
    rw [evaluateForms]
    cases houtcome : (evaluate env form).outcome with
    | error cause =>
      rw [Run.andThen_of_error houtcome]
      exact hafter
    | ok value =>
      rw [Run.andThen_of_ok houtcome]
      exact ih hrest hafter _

theorem runFirst_named {env : Environment ω} (henv : env.Named) (text : String) :
    (runFirst env text).env.Named := by
  cases hread : (readOne (ω := ω) (tokenize text)).1 with
  | error cause =>
    rw [runFirst_of_unread hread]
    exact henv
  | ok form =>
    have hafter := named_law.evaluate env form henv (readText_readable hread)
    rw [← Run.env_mapError Error.eval] at hafter
    rw [runFirst_of_read hread]
    exact hafter

theorem runAll_named {env : Environment ω} (henv : env.Named) (text : String) :
    (runAll env text).env.Named := by
  cases hread : readAll (ω := ω) (tokenize text) with
  | error cause =>
    rw [runAll_of_unread hread]
    exact henv
  | ok forms =>
    have hafter := evaluateForms_named (readAll_readable hread) henv none
    rw [← Run.env_mapError Error.eval] at hafter
    rw [runAll_of_read hread]
    exact hafter

end Evaluating

/-! ## 3. Sessions -/

/-- What is bound before a replay is bound after it. -/
theorem Environment.isSome_get?_replay {env : Environment ω} {name : String}
    (h : (env.get? name).isSome) (log : List (Event ω)) : ((env.replay log).get? name).isSome := by
  obtain ⟨_, _, _, _, _, hget⟩ | ⟨_, hget⟩ := env.get?_replay log name
  · rw [hget]
    rfl
  · rw [hget]
    exact h

namespace Environment.Reachable

variable [Operation ω] {env : Environment ω}

/-- **Texts bind nothing but names.** -/
theorem named (h : env.Reachable) : env.Named := by
  induction h with
  | standard => exact named_standard
  | first text _ ih => exact runFirst_named ih text
  | all text _ ih => exact runAll_named ih text

/-- **Texts leave bound what is.** -/
theorem isSome_get? (h : env.Reachable) {name : String}
    (hname : ((Environment.standard : Environment ω).get? name).isSome) : (env.get? name).isSome := by
  induction h with
  | standard => exact hname
  | first text _ ih =>
    rw [runFirst_replays]
    exact isSome_get?_replay ih _
  | all text _ ih =>
    rw [runAll_replays]
    exact isSome_get?_replay ih _

end Environment.Reachable

/-- The built-in procedures are told apart by what is compared of them. -/
theorem Procedure.Builtin.eq_of_beq {p q : Procedure ω} (hp : p.Builtin) (hq : q.Builtin)
    (h : (p == q) = true) : p = q := by
  cases hp <;> cases hq
  · rfl
  · cases h
  · cases h
  · rfl

/-- **What sessions bind and return.** Whatever texts were run before, and whatever they ended in:
    nothing is bound but numbers and the two built-in procedures, and no text returns anything else, so
    that procedures which compare equal are the same; nothing is bound but names, and a bound name, run
    as a text, has the value it is bound to and changes nothing; and what is bound in the beginning
    still is. -/
theorem session_binds_values_to_names [Operation ω] {env : Environment ω} (h : env.Reachable) :
    (∀ name value, env.get? name = some value → value.IsValue) ∧
    (∀ text value, (runFirst env text).outcome = .ok value → value.IsValue) ∧
    (∀ text value, (runAll env text).outcome = .ok (some value) → value.IsValue) ∧
    (∀ name other p q s t, env.get? name = some (.procedure p s) →
      env.get? other = some (.procedure q t) → (p == q) = true → p = q) ∧
    (∀ name value, env.get? name = some value →
      name ≠ "" ∧ (∀ c ∈ name.toList, c ∉ [' ', '\t', '\n', '\r', '\x0c', '(', ')']) ∧
      (∀ span, (Node.ofAtom name span : Node ω) = .symbol name span) ∧
      runFirst env name = ⟨.ok value, env, [.tokenized 1]⟩) ∧
    ∀ name ∈ ["pi", "*", "begin"], (env.get? name).isSome := by
  refine ⟨h.ordinary, fun text => (runFirst_ordinary h.ordinary text).2, fun text value hvalue => ?all,
    fun name other p q s t hp hq => ?same, fun name value hvalue => ?names, fun name hname => ?bound⟩
  case all => exact (runAll_ordinary h.ordinary text).2 (some value) hvalue value rfl
  case same =>
    exact (h.ordinary name _ hp).builtin.eq_of_beq (h.ordinary other _ hq).builtin
  case names =>
    have hname : IsName name := h.named name value hvalue
    exact ⟨hname.nonempty, hname.chars, hname.ofAtom_eq, runFirst_of_bound hname hvalue⟩
  case bound =>
    simp only [List.mem_cons, List.not_mem_nil, or_false] at hname
    refine h.isSome_get? ?_
    rcases hname with rfl | rfl | rfl <;> simp

/-- The name of multiplication, bound to the sequence. -/
theorem session_binds_values_to_names_of_rebound :
    let env : Environment Empty := (runAll .standard "(define * begin)").env
    let value : Node Empty :=
      .procedure (.variadic .sequence Environment.sequenceName) Span.nowhere
    env.Reachable ∧ env.get? "*" = some value ∧ value.IsValue ∧
      runFirst env "*" = ⟨.ok value, env, [.tokenized 1]⟩ := by
  intro env value
  have hread : readAll (tokenize "(define * begin)") =
      .ok [(.list [.symbol "define" ⟨1, 7⟩, .symbol "*" ⟨8, 9⟩, .symbol "begin" ⟨10, 15⟩] ⟨0, 16⟩ :
        Node Empty)] := by rfl
  have henv : env = Environment.standard.define "*" value := by
    simp only [env, value, runAll_of_alias hread Environment.get?_standard_sequence]
  have hreachable : env.Reachable := .all _ .standard
  have hget : env.get? "*" = some value := by
    rw [henv, Environment.get?_define_self]
  obtain ⟨hbound, _, _, _, hnames, _⟩ := session_binds_values_to_names hreachable
  exact ⟨hreachable, hget, hbound "*" value hget, (hnames "*" value hget).2.2.2⟩

end MiniLisp
