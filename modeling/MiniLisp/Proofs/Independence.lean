import Mathlib.Data.List.Pairwise
import Mathlib.Data.List.Perm.Basic
import MiniLisp.Proofs.Footprints

/-!
# Independence: expressions that may be evaluated in either order

Two expressions that leave each other's names alone cannot tell which of them came first. This file fixes:

* `Node.Independent`: no name that a definition in the one gives a value is mentioned in the other;
* `evaluate_after`: behind an expression that leaves its names alone, an expression comes to what it comes
  to by itself, and logs the same;
* `Node.Commutes`: the two leave the same environment in either order. Independent ones do
  (`Node.Independent.commutes`);
* `Session.env_serveAll_perm`: **in a session, expressions that are pairwise independent may be evaluated in
  any order**;
* **`independent_expressions_commute`**: both together, whatever the expressions come to.
-/

namespace MiniLisp

variable {ω : Type}

/-! ## 1. Independent expressions -/

namespace Node

/-- Neither of the nodes defines a name that the other one mentions. -/
def Independent (m n : Node ω) : Prop :=
  (∀ name ∈ m.targets, name ∉ n.mentions) ∧ ∀ name ∈ n.targets, name ∉ m.mentions

instance (m n : Node ω) : Decidable (m.Independent n) := inferInstanceAs (Decidable (_ ∧ _))

/-- A definition mentions the name that it gives a value. -/
theorem targets_subset_mentions (n : Node ω) : n.targets ⊆ n.mentions := by
  induction n with
  | symbol name s => exact List.nil_subset _
  | number x s => exact List.nil_subset _
  | procedure p s => exact List.nil_subset _
  | list items s ih =>
    cases items with
    | nil => exact List.nil_subset _
    | cons head operands =>
      obtain ⟨hhead, hoperands⟩ := List.forall_mem_cons.mp ih
      intro name hname
      rw [targets_list, List.flatMap_cons, List.mem_append, List.mem_append] at hname
      rcases hname with hname | hname | hname
      · -- the name is the first operand
        refine mentions_operands_subset head operands s ?_
        unfold target? at hname
        split at hname
        · rename_i other u expression hitems
          cases hitems
          split at hname
          · cases Option.mem_toList.mp hname
            simp
          · cases hname
        · cases hname
      · by_cases hdef : head.isDefine = true
        · obtain ⟨t, rfl⟩ := isDefine_iff.mp hdef
          cases hname
        · exact mentions_head_subset (Bool.eq_false_iff.mpr hdef) operands s (hhead hname)
      · obtain ⟨n, hn, hname⟩ := List.mem_flatMap.mp hname
        refine mentions_operands_subset head operands s ?_
        exact List.mem_flatMap.mpr ⟨n, hn, hoperands n hn hname⟩

end Node

section Commuting

variable [Operation ω]

/-! ## 2. One behind the other -/

/-- **An expression comes to what it comes to by itself**, and logs the same, behind one that defines none
    of the names it mentions. -/
theorem evaluate_after (env : Environment ω) {m n : Node ω}
    (h : ∀ name ∈ m.targets, name ∉ n.mentions) :
    (evaluate (evaluate env m).env n).outcome = (evaluate env n).outcome ∧
      (evaluate (evaluate env m).env n).log = (evaluate env n).log := by
  have hagrees : (evaluate env m).env.AgreesOn n.mentions env := fun name hname =>
    get?_evaluate_of_notMem env fun htarget => h name htarget hname
  have hruns := evaluate_agreesOn (List.Subset.refl n.mentions) hagrees
  exact ⟨hruns.outcome, hruns.log⟩

/-- The nodes leave the same environment in either order. -/
def Node.Commutes (m n : Node ω) : Prop :=
  ∀ env : Environment ω,
    (evaluate (evaluate env m).env n).env = (evaluate (evaluate env n).env m).env

instance : Std.Symm (Node.Commutes (ω := ω)) := ⟨fun _ _ h env => (h env).symm⟩

/-- **Independent expressions commute**, also where they fail: each logs what it logs by itself, and the
    two logs give values to different names. -/
theorem Node.Independent.commutes {m n : Node ω} (h : m.Independent n) : m.Commutes n := by
  intro env
  have henv : ∀ (a : Environment ω) (k : Node ω), (evaluate a k).env = a.replay (evaluate a k).log :=
    fun a k => replays_law.evaluate a k
  have hdistinct : ∀ name v w, .defined name v ∈ (evaluate env m).log →
      .defined name w ∉ (evaluate env n).log := by
    intro name v w hv hw
    exact h.1 name (mem_targets_of_mem_log hv) (n.targets_subset_mentions (mem_targets_of_mem_log hw))
  calc (evaluate (evaluate env m).env n).env
      = (env.replay (evaluate env m).log).replay (evaluate env n).log := by
        rw [henv, (evaluate_after env h.1).2, henv env m]
    _ = (env.replay (evaluate env n).log).replay (evaluate env m).log := env.replay_comm hdistinct
    _ = (evaluate (evaluate env n).env m).env := by
        rw [henv _ m, (evaluate_after env h.2).2, henv env n]

/-! ## 3. Sessions -/

/-- A session in which expressions are evaluated goes from each to the next in the environment it left. -/
theorem Session.env_serveAll_nodes (session : Session ω) (ns : List (Node ω)) :
    (session.serveAll (ns.map .node)).env = ns.foldl (fun env n => (evaluate env n).env) session.env := by
  have hrun : ∀ (env : Environment ω) (n : Node ω),
      ((Request.node n).run env).env = (evaluate env n).env := by
    intro env n
    rw [Request.run]
    generalize evaluate env n = r
    obtain ⟨outcome, after, log⟩ := r
    cases outcome <;> rfl
  induction ns generalizing session with
  | nil => rfl
  | cons n rest ih =>
    show ((session.serve (.node n)).serveAll (rest.map .node)).env = _
    rw [ih, List.foldl_cons, ← hrun]
    rfl

/-- **The order of expressions that are pairwise independent does not matter to a session.** -/
theorem Session.env_serveAll_perm (session : Session ω) {ms ns : List (Node ω)} (hperm : ms.Perm ns)
    (h : ms.Pairwise Node.Independent) :
    (session.serveAll (ms.map .node)).env = (session.serveAll (ns.map .node)).env := by
  have hpairs : ms.Pairwise Node.Commutes := h.imp Node.Independent.commutes
  -- two places of the list may hold the same expression, which commutes with itself
  have hcomm : ∀ m ∈ ms, ∀ n ∈ ms, m.Commutes n := hpairs.forall_of_forall fun _ _ _ => rfl
  rw [session.env_serveAll_nodes, session.env_serveAll_nodes]
  exact hperm.foldl_eq' (fun m hm n hn env => hcomm m hm n hn env) session.env

/-- **Independent expressions may be evaluated in either order.** Each of them has the outcome it has by
    itself, the same value at the same place or the same error, and the environment they leave is the same,
    whether they fail or not. So expressions of a session that are pairwise independent may be evaluated in
    any order. -/
theorem independent_expressions_commute :
    (∀ (env : Environment ω) (m n : Node ω), m.Independent n →
      (evaluate (evaluate env m).env n).env = (evaluate (evaluate env n).env m).env ∧
      (evaluate (evaluate env m).env n).outcome = (evaluate env n).outcome ∧
      (evaluate (evaluate env n).env m).outcome = (evaluate env m).outcome) ∧
    (∀ (session : Session ω) (ms ns : List (Node ω)), ms.Perm ns → ms.Pairwise Node.Independent →
      (session.serveAll (ms.map .node)).env = (session.serveAll (ns.map .node)).env) :=
  ⟨fun env _ _ h => ⟨h.commutes env, (evaluate_after env h.1).1, (evaluate_after env h.2).1⟩,
    fun session _ _ hperm h => session.env_serveAll_perm hperm h⟩

end Commuting

/-- The first expression fails after it has defined a name; the second one defines another. -/
theorem independent_expressions_commute_of_failing :
    let m : Node Empty := .list [.symbol "*" ⟨1, 2⟩,
      .list [.symbol "define" ⟨4, 10⟩, .symbol "r" ⟨11, 12⟩, .symbol "pi" ⟨13, 15⟩] ⟨3, 16⟩,
      .symbol "s" ⟨17, 18⟩] ⟨0, 19⟩
    let n : Node Empty :=
      .list [.symbol "define" ⟨1, 7⟩, .symbol "t" ⟨8, 9⟩, .symbol "begin" ⟨10, 15⟩] ⟨0, 16⟩
    m.Independent n ∧
      (evaluate (evaluate .standard m).env n).env = (evaluate (evaluate .standard n).env m).env ∧
      [m, n].Perm [n, m] ∧ [m, n].Pairwise Node.Independent ∧
      ((Session.start .standard).serveAll ([m, n].map .node)).env =
        ((Session.start .standard).serveAll ([n, m].map .node)).env := by
  intro m n
  have h : m.Independent n := by decide
  have hperm : [m, n].Perm [n, m] := .swap n m []
  have hpairs : [m, n].Pairwise Node.Independent := List.pairwise_pair.mpr h
  exact ⟨h, (independent_expressions_commute.1 .standard m n h).1, hperm, hpairs,
    independent_expressions_commute.2 (.start .standard) [m, n] [n, m] hperm hpairs⟩

end MiniLisp
