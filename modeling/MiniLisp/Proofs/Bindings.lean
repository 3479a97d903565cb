import Mathlib.Data.List.Dedup
import MiniLisp.Evaluation
import MiniLisp.Proofs.Slices

/-!
# Bindings: an environment is what was bound last

An environment answers for a name with the node that the name was bound to last, and nothing else of how it came
about is left in it. This file fixes:

* `Environment.defineAll`: bindings made one after the other; `Environment.LastBinds`: the value that the last
  binding of a name gives it, or else the value it had before. **That is what a look-up finds**
  (`Environment.get?_defineAll_eq_some_iff`);
* `Environment.mem_names_defineAll`, `Environment.size_defineAll`: the names are all that were ever bound, and each
  of them counts once;
* `Environment.defineAll_eq_of_lastBinds`: bindings that agree on the last one of each name make one environment,
  in whatever order they are made and however often;
* `Node.HoldsNaN`: **a node is equal to itself unless a NaN stands in it** (`Node.beq_self_iff`). Environments are
  equal where equal nodes answer every look-up (`Environment.beq_iff`), so the same holds of them
  (`Environment.beq_self_iff`);
* **`last_bindings_make_environment`**: the result.
-/

namespace MiniLisp

variable {ω : Type}

/-! ## 1. The last binding of a name -/

namespace Environment

variable {env : Environment ω} {name : String} {writes : List (String × Node ω)}

/-- Bindings made one after the other. -/
def defineAll (env : Environment ω) (writes : List (String × Node ω)) : Environment ω :=
  writes.foldl (fun env write => env.define write.1 write.2) env

/-- The last of the bindings that is one of the name gives it the value; or there is none, and the name has had
    the value before. -/
def LastBinds (env : Environment ω) (writes : List (String × Node ω)) (name : String) (value : Node ω) : Prop :=
  (∃ before after, writes = before ++ (name, value) :: after ∧ name ∉ after.map Prod.fst) ∨
    (name ∉ writes.map Prod.fst ∧ env.get? name = some value)

theorem defineAll_cons (env : Environment ω) (other : String) (bound : Node ω) (writes : List (String × Node ω)) :
    env.defineAll ((other, bound) :: writes) = (env.define other bound).defineAll writes := rfl

theorem lastBinds_nil {value : Node ω} : env.LastBinds [] name value ↔ env.get? name = some value := by
  constructor
  · intro h
    rcases h with ⟨before, after, hwrites, _⟩ | ⟨_, hget⟩
    · exact absurd hwrites.symm (List.append_ne_nil_of_right_ne_nil before (List.cons_ne_nil _ after))
    · exact hget
  · exact fun hget => .inr ⟨List.not_mem_nil, hget⟩

/-- **A binding that is made first is what the later ones find.** -/
theorem lastBinds_cons {other : String} {bound value : Node ω} :
    env.LastBinds ((other, bound) :: writes) name value ↔ (env.define other bound).LastBinds writes name value := by
  constructor
  · intro h
    rcases h with ⟨before, after, hwrites, hafter⟩ | ⟨hnone, hget⟩
    · cases before with
      | nil =>
        -- the binding itself is the last one of the name
        cases hwrites
        exact .inr ⟨hafter, by rw [get?_define_self]⟩
      | cons first before =>
        obtain ⟨_, rfl⟩ := List.cons.inj hwrites
        exact .inl ⟨before, after, rfl, hafter⟩
    · rw [List.map_cons, List.mem_cons, not_or] at hnone
      exact .inr ⟨hnone.2, by rw [get?_define_of_ne (Ne.symm hnone.1), hget]⟩
  · intro h
    rcases h with ⟨before, after, rfl, hafter⟩ | ⟨hnone, hget⟩
    · exact .inl ⟨(other, bound) :: before, after, rfl, hafter⟩
    · rw [get?_define] at hget
      by_cases hname : other = name
      · rw [if_pos hname] at hget
        cases hget
        subst hname
        exact .inl ⟨[], writes, rfl, hnone⟩
      · rw [if_neg hname] at hget
        refine .inr ⟨?_, hget⟩
        rw [List.map_cons, List.mem_cons, not_or]
        exact ⟨Ne.symm hname, hnone⟩

/-- **A look-up finds what the name was bound to last.** -/
theorem get?_defineAll_eq_some_iff {value : Node ω} :
    (env.defineAll writes).get? name = some value ↔ env.LastBinds writes name value := by
  induction writes generalizing env with
  | nil => exact lastBinds_nil.symm
  | cons write writes ih =>
    obtain ⟨other, bound⟩ := write
    rw [defineAll_cons, lastBinds_cons, ih]

/-- **Only the last binding of each name is left.** -/
theorem defineAll_eq_of_lastBinds {a b : Environment ω} {others : List (String × Node ω)}
    (h : ∀ name value, a.LastBinds writes name value ↔ b.LastBinds others name value) :
    a.defineAll writes = b.defineAll others := by
  refine ext_get? fun name => Option.ext fun value => ?_
  rw [get?_defineAll_eq_some_iff, get?_defineAll_eq_some_iff, h]

/-! ## 2. The names there are -/

/-- **The names are all that were ever bound.** -/
theorem mem_names_defineAll :
    name ∈ (env.defineAll writes).names ↔ name ∈ env.names ∨ name ∈ writes.map Prod.fst := by
  induction writes generalizing env with
  | nil => exact (or_iff_left List.not_mem_nil).symm
  | cons write writes ih =>
    obtain ⟨other, bound⟩ := write
    rw [defineAll_cons, ih, mem_names_define, List.map_cons, List.mem_cons, eq_comm, or_assoc, or_left_comm]

/-- **As many names are bound as different ones were ever bound.** -/
theorem size_defineAll (env : Environment ω) (writes : List (String × Node ω)) :
    (env.defineAll writes).size = (env.names ++ writes.map Prod.fst).dedup.length := by
  have hperm : (env.defineAll writes).names.Perm (env.names ++ writes.map Prod.fst).dedup := by
    refine (List.perm_ext_iff_of_nodup (nodup_names _) (List.nodup_dedup _)).mpr fun name => ?_
    rw [mem_names_defineAll, List.mem_dedup, List.mem_append]
  rw [← length_names, hperm.length_eq]

/-- The same names are listed in the same order. -/
theorem names_eq_of_forall_mem_iff {a b : Environment ω} (h : ∀ name, name ∈ a.names ↔ name ∈ b.names) :
    a.names = b.names := by
  have hperm : a.names.Perm b.names := (List.perm_ext_iff_of_nodup a.nodup_names b.nodup_names).mpr h
  refine hperm.eq_of_pairwise ?_ Std.ExtTreeMap.ordered_keys Std.ExtTreeMap.ordered_keys
  exact fun _ _ _ _ hlt hgt => absurd hgt (Std.OrientedCmp.not_lt_of_lt hlt)

end Environment

/-! ## 3. Equality -/

/-- **A number is equal to itself unless it is a NaN.** -/
theorem Double.beq_self (x : Float) : (x == x) = !x.isNaN := by
  show x.toModel.unpack.beq x.toModel.unpack = !x.toModel.unpack.isNaN
  cases x.toModel.unpack with
  | notANumber => rfl
  | infinity sign => cases sign <;> rfl
  | zero sign => cases sign <;> rfl
  | finite sign mantissa exponent pos =>
    have horder : (compare exponent exponent).then (compare mantissa mantissa) = .eq := by simp
    cases sign with
    | positive => exact congrArg (fun order => some order == some Ordering.eq) horder
    | negative => exact congrArg (fun order => some order.swap == some Ordering.eq) horder

instance : ReflBEq (Procedure ω) where
  rfl {p} := by
    cases p with
    | binary operation name => exact beq_self_eq_true name
    | variadic operation name => exact beq_self_eq_true name

namespace Node

/-- The node is a NaN, or one stands in it. -/
def HoldsNaN (n : Node ω) : Prop := ∃ x s, (number x s).Inside n ∧ x.isNaN = true

theorem holdsNaN_number {x : Float} {s : Span} : (number x s : Node ω).HoldsNaN ↔ x.isNaN = true := by
  constructor
  · intro ⟨y, t, hinside, hy⟩
    cases hinside with
    | self => exact hy
  · exact fun hx => ⟨x, s, .self, hx⟩

theorem holdsNaN_list {items : List (Node ω)} {s : Span} :
    (list items s).HoldsNaN ↔ ∃ n ∈ items, n.HoldsNaN := by
  constructor
  · intro ⟨x, t, hinside, hx⟩
    cases hinside with
    | item _ mem hinside => exact ⟨_, mem, x, t, hinside, hx⟩
  · intro ⟨n, hn, x, t, hinside, hx⟩
    exact ⟨x, t, .item s hn hinside, hx⟩

theorem not_holdsNaN_symbol {name : String} {s : Span} : ¬ (symbol name s : Node ω).HoldsNaN := by
  intro ⟨x, t, hinside, _⟩
  cases hinside

theorem not_holdsNaN_procedure {p : Procedure ω} {s : Span} : ¬ (procedure p s).HoldsNaN := by
  intro ⟨x, t, hinside, _⟩
  cases hinside

theorem sameItems_self_iff {items : List (Node ω)} :
    sameItems items items = true ↔ ∀ n ∈ items, (n == n) = true := by
  induction items with
  | nil => exact iff_of_true rfl nofun
  | cons n rest ih =>
    rw [sameItems, Bool.and_eq_true, ih, List.forall_mem_cons]
    rfl

/-- **A node is equal to itself unless it holds a NaN.** -/
theorem beq_self_iff {n : Node ω} : (n == n) = true ↔ ¬ n.HoldsNaN := by
  show n.same n = true ↔ _
  induction n with
  | symbol name span =>
    rw [same, beq_self_eq_true, beq_self_eq_true]
    exact iff_of_true rfl not_holdsNaN_symbol
  | number x span =>
    rw [same, Double.beq_self, beq_self_eq_true span, Bool.and_true, Bool.not_eq_true', holdsNaN_number,
      Bool.not_eq_true]
  | list items span ih =>
    have hitems : (∀ n ∈ items, (n == n) = true) ↔ ∀ n ∈ items, ¬ n.HoldsNaN := forall₂_congr ih
    rw [same, beq_self_eq_true, Bool.and_true, sameItems_self_iff, hitems, holdsNaN_list]
    simp only [not_exists, not_and]
  | procedure p span =>
    rw [same, beq_self_eq_true, beq_self_eq_true]
    exact iff_of_true rfl not_holdsNaN_procedure

end Node

namespace Environment

/-- Equal answers to a look-up are answers both, or none. -/
theorem isSome_eq_of_beq {x y : Option (Node ω)} (h : (x == y) = true) : x.isSome = y.isSome := by
  cases x with
  | none =>
    cases y with
    | none => rfl
    | some b => cases h
  | some a =>
    cases y with
    | none => cases h
    | some b => rfl

/-- **Environments are equal where equal nodes answer every look-up**, or none on both sides. -/
theorem beq_iff {a b : Environment ω} : (a == b) = true ↔ ∀ name, (a.get? name == b.get? name) = true := by
  show (a.names == b.names && a.names.all fun name => a.get? name == b.get? name) = true ↔ _
  rw [Bool.and_eq_true, beq_iff_eq, List.all_eq_true]
  constructor
  · intro ⟨hnames, hall⟩ name
    by_cases hname : name ∈ a.names
    · exact hall name hname
    · rw [get?_eq_none_iff.mpr hname, get?_eq_none_iff.mpr (hnames ▸ hname)]
      rfl
  · intro h
    refine ⟨names_eq_of_forall_mem_iff fun name => ?_, fun name _ => h name⟩
    rw [mem_names, mem_names, contains_eq_isSome_get?, contains_eq_isSome_get?, isSome_eq_of_beq (h name)]

/-- **An environment is equal to itself unless a NaN stands in something that is bound.** -/
theorem beq_self_iff {env : Environment ω} :
    (env == env) = true ↔ ∀ name value, env.get? name = some value → ¬ value.HoldsNaN := by
  rw [beq_iff]
  constructor
  · intro h name value hget
    have hname := h name
    rw [hget, Option.some_beq_some] at hname
    exact Node.beq_self_iff.mp hname
  · intro h name
    cases hget : env.get? name with
    | none => rfl
    | some value =>
      rw [Option.some_beq_some]
      exact Node.beq_self_iff.mpr (h name value hget)

/-- A NaN at any depth makes a difference. -/
example :
    let env : Environment Empty := empty.define "x" (.list [.number (0 / 0) Span.nowhere] Span.nowhere)
    (env == env) = false := by decide +kernel

end Environment

/-! ## 4. The map of last bindings -/

/-- **An environment is the finite map of what was bound last.** After any bindings, a look-up finds the value that
    the last binding of its name gave it; where there was none, it finds what the name was bound to before, if
    anything. A name is bound if a look-up finds something. As many names are bound as different ones ever were,
    they are those and no others, each listed once, and an environment is empty if there are none. Environments
    are equal if equal nodes answer every look-up. Bindings that agree on what was bound last, in whatever order
    and however often they are made, and whatever was there before, leave environments that give the same answers
    and make the same of every node; these are equal unless a NaN stands in something that is bound. -/
theorem last_bindings_make_environment [Operation ω] :
    (Environment.empty : Environment ω).names = [] ∧
    (Environment.standard : Environment ω).names = ["*", "begin", "pi"] ∧
    (∀ (env : Environment ω) (writes : List (String × Node ω)),
      let after := env.defineAll writes
      (∀ name value, after.get? name = some value ↔ env.LastBinds writes name value) ∧
      (∀ name, after.contains name = true ↔ ∃ value, after.get? name = some value) ∧
      after.size = (env.names ++ writes.map Prod.fst).dedup.length ∧
      (after.isEmpty = true ↔ after.size = 0) ∧
      after.names.Nodup ∧ ∀ name, name ∈ after.names ↔ name ∈ env.names ∨ name ∈ writes.map Prod.fst) ∧
    (∀ a b : Environment ω, (a == b) = true ↔ ∀ name, (a.get? name == b.get? name) = true) ∧
    ∀ (a b : Environment ω) (writes others : List (String × Node ω)),
      (∀ name value, a.LastBinds writes name value ↔ b.LastBinds others name value) →
      let left := a.defineAll writes
      let right := b.defineAll others
      (∀ name, left.get? name = right.get? name ∧ left.contains name = right.contains name) ∧
      left.size = right.size ∧ left.isEmpty = right.isEmpty ∧ left.names = right.names ∧
      (∀ n, evaluate left n = evaluate right n) ∧
      ((left == right) = true ↔ ∀ name value, left.get? name = some value → ¬ value.HoldsNaN) := by
  refine ⟨rfl, rfl, fun env writes => ?answers, fun _ _ => Environment.beq_iff, fun a b writes others h => ?alike⟩
  case answers =>
    exact ⟨fun _ _ => Environment.get?_defineAll_eq_some_iff, fun _ => Environment.contains_iff_exists_get?,
      env.size_defineAll writes, Environment.isEmpty_iff, Environment.nodup_names _,
      fun _ => Environment.mem_names_defineAll⟩
  case alike =>
    intro left right
    have heq : left = right := Environment.defineAll_eq_of_lastBinds h
    rw [← heq]
    exact ⟨fun _ => ⟨rfl, rfl⟩, rfl, rfl, rfl, fun _ => rfl, Environment.beq_self_iff⟩

/-- The standard environment with `pi` bound anew and another name bound twice; and all of it bound from nothing,
    in another order, `pi` twice. -/
theorem last_bindings_make_environment_of_reordered :
    let form : Node Empty := .list [.symbol "pi" ⟨1, 3⟩, .number Environment.pi ⟨4, 12⟩] ⟨0, 13⟩
    let writes : List (String × Node Empty) :=
      [("r", .number Environment.pi ⟨10, 18⟩), ("pi", form), ("r", .symbol "pi" ⟨21, 23⟩)]
    let others : List (String × Node Empty) :=
      [("pi", .symbol "r" ⟨5, 6⟩), ("begin", .procedure (.variadic .sequence "begin") Span.nowhere),
        ("r", .symbol "pi" ⟨21, 23⟩), ("*", .procedure (.binary Environment.multiply "*") Span.nowhere),
        ("pi", form)]
    let a : Environment Empty := .standard
    let b : Environment Empty := .empty
    let left := a.defineAll writes
    let right := b.defineAll others
    (∀ name value, a.LastBinds writes name value ↔ b.LastBinds others name value) ∧
      left.names = ["*", "begin", "pi", "r"] ∧ left.names = right.names ∧
      (∀ n, evaluate left n = evaluate right n) ∧
      (∀ name value, left.get? name = some value → ¬ value.HoldsNaN) ∧ (left == right) = true := by
  intro form writes others a b left right
  have h : ∀ name value, a.LastBinds writes name value ↔ b.LastBinds others name value := by
    intro name value
    rw [← Environment.get?_defineAll_eq_some_iff, ← Environment.get?_defineAll_eq_some_iff]
    simp only [writes, others, a, b, Environment.standard, Environment.defineAll, List.foldl, Environment.get?_define,
      Environment.get?_empty, Environment.sequenceName]
    grind
  have hNaN : ∀ name value, left.get? name = some value → ¬ value.HoldsNaN :=
    Environment.beq_self_iff.mp (by decide +kernel)
  obtain ⟨_, _, _, hnames, heval, hequal⟩ := last_bindings_make_environment.2.2.2.2 a b writes others h
  exact ⟨h, by decide +kernel, hnames, heval, hNaN, hequal.mpr hNaN⟩

end MiniLisp
