import MiniLisp.Node
import Std.Data.ExtTreeMap

/-!
# Environments: what names are bound to

An environment is one flat finite map from names to nodes; a new binding of a name replaces the old
one. This file fixes:

* the operations, each through the one view `get?`;
* the standard environment: a constant, multiplication and sequencing;
* the order of names: by code point, which is also the order of their UTF-8 bytes.
-/

namespace MiniLisp

variable {ω : Type}

/-- A finite map from names to nodes. -/
structure Environment (ω : Type) where
  bindings : Std.ExtTreeMap String (Node ω)

namespace Environment

/-! ## 1. Operations -/

/-- No name is bound. -/
def empty : Environment ω := ⟨∅⟩

/-- Binds a name, in place of what it was bound to. -/
def define (env : Environment ω) (name : String) (value : Node ω) : Environment ω :=
  ⟨env.bindings.insert name value⟩

/-- What a name is bound to. -/
def get? (env : Environment ω) (name : String) : Option (Node ω) := env.bindings[name]?

/-- Whether a name is bound. -/
def contains (env : Environment ω) (name : String) : Bool := env.bindings.contains name

/-- How many names are bound. -/
def size (env : Environment ω) : Nat := env.bindings.size

/-- Whether no name is bound. -/
def isEmpty (env : Environment ω) : Bool := env.bindings.isEmpty

/-- The bound names in order. -/
def names (env : Environment ω) : List String := env.bindings.keys

/-- The bindings in the order of their names. -/
def toList (env : Environment ω) : List (String × Node ω) := env.bindings.toList

/-- Equality: the same names, bound to equal nodes. -/
def same (a b : Environment ω) : Bool :=
  a.names == b.names && a.names.all fun name => a.get? name == b.get? name

instance : BEq (Environment ω) := ⟨same⟩

/-! ## 2. Through the view -/

/-- Environments are equal if they answer every look-up alike. -/
theorem ext_get? {a b : Environment ω} (h : ∀ name, a.get? name = b.get? name) : a = b := by
  cases a
  cases b
  exact congrArg mk (Std.ExtTreeMap.ext_getElem? h)

@[simp] theorem get?_empty (name : String) : (empty : Environment ω).get? name = none :=
  Std.ExtTreeMap.getElem?_empty

/-- A look-up finds the binding made last. -/
theorem get?_define (env : Environment ω) (name other : String) (value : Node ω) :
    (env.define name value).get? other = if name = other then some value else env.get? other := by
  simp [get?, define, Std.ExtTreeMap.getElem?_insert]

@[simp] theorem get?_define_self (env : Environment ω) (name : String) (value : Node ω) :
    (env.define name value).get? name = some value := by
  rw [get?_define, if_pos rfl]

theorem get?_define_of_ne {name other : String} (h : name ≠ other) (env : Environment ω)
    (value : Node ω) : (env.define name value).get? other = env.get? other := by
  rw [get?_define, if_neg h]

theorem contains_eq_isSome_get? (env : Environment ω) (name : String) :
    env.contains name = (env.get? name).isSome :=
  Std.ExtTreeMap.contains_eq_isSome_getElem?

theorem contains_iff_exists_get? {env : Environment ω} {name : String} :
    env.contains name = true ↔ ∃ value, env.get? name = some value := by
  rw [contains_eq_isSome_get?, Option.isSome_iff_exists]

theorem mem_names {env : Environment ω} {name : String} :
    name ∈ env.names ↔ env.contains name = true := by
  simp [names, contains]

theorem get?_eq_none_iff {env : Environment ω} {name : String} : env.get? name = none ↔ name ∉ env.names := by
  rw [mem_names, contains_eq_isSome_get?, Bool.not_eq_true, Option.isSome_eq_false_iff, Option.isNone_iff_eq_none]

theorem nodup_names (env : Environment ω) : env.names.Nodup := Std.ExtTreeMap.nodup_keys

theorem length_names (env : Environment ω) : env.names.length = env.size := Std.ExtTreeMap.length_keys

theorem isEmpty_iff {env : Environment ω} : env.isEmpty = true ↔ env.size = 0 := by
  rw [isEmpty, Std.ExtTreeMap.isEmpty_eq_size_beq_zero, beq_iff_eq]
  rfl

/-- A binding adds its name and no other. -/
theorem mem_names_define {env : Environment ω} {name other : String} {value : Node ω} :
    other ∈ (env.define name value).names ↔ name = other ∨ other ∈ env.names := by
  rw [mem_names, mem_names, contains_eq_isSome_get?, contains_eq_isSome_get?, get?_define]
  by_cases h : name = other
  · rw [if_pos h]
    exact iff_of_true rfl (.inl h)
  · rw [if_neg h, or_iff_right h]

/-! ## 3. The standard environment -/

/-- The constant a program finds under the name `pi`. -/
def pi : Float := 3.141592

/-- Multiplication of doubles. -/
def multiply (x y : Float) : Float := x * y

/-- The name of the built-in sequence. -/
def sequenceName : String := "begin"

/-- What every program starts from. The built-in values stand in no text. -/
def standard : Environment ω :=
  empty
    |>.define "pi" (.number pi Span.nowhere)
    |>.define "*" (.procedure (.binary multiply "*") Span.nowhere)
    |>.define sequenceName (.procedure (.variadic .sequence sequenceName) Span.nowhere)

@[simp] theorem get?_standard_pi :
    (standard : Environment ω).get? "pi" = some (.number pi Span.nowhere) := by
  simp [standard, get?_define, sequenceName]

@[simp] theorem get?_standard_multiply :
    (standard : Environment ω).get? "*" = some (.procedure (.binary multiply "*") Span.nowhere) := by
  simp [standard, get?_define, sequenceName]

@[simp] theorem get?_standard_sequence :
    (standard : Environment ω).get? "begin" =
      some (.procedure (.variadic .sequence sequenceName) Span.nowhere) :=
  get?_define_self ..

/-- No other name is bound. -/
theorem get?_standard_of_notMem {name : String} (h : name ∉ ["pi", "*", "begin"]) :
    (standard : Environment ω).get? name = none := by
  simp only [List.mem_cons, List.not_mem_nil, or_false, not_or] at h
  simp [standard, get?_define, sequenceName, Ne.symm h.1, Ne.symm h.2.1, Ne.symm h.2.2]

end Environment

end MiniLisp
