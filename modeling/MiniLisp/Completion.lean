import MiniLisp.Evaluation
import MiniLisp.Token

/-!
# Completion of names

What may follow the characters before a cursor: if they end in an atom, the rests of all names that
begin with that atom, whether bound in the environment or special forms. Without an atom at the
cursor nothing is offered.
-/

namespace MiniLisp

variable {ω : Type}

/-- The characters that end at or before byte `stop`. -/
def charsBefore (stop : Nat) : List Char → List Char
  | [] => []
  | c :: cs =>
    if c.utf8Size ≤ stop then c :: charsBefore (stop - c.utf8Size) cs else []

/-- The atom that ends at the end of the characters. -/
def atomBefore? (cs : List Char) : Option String :=
  match (tokensFrom 0 cs).getLast? with
  | some ⟨.atom text, span⟩ => if span.stop = byteLength cs then some text else none
  | _ => none

/-- What is left of a name behind its beginning, if it begins so. -/
def restOfName? (beginning name : String) : Option String :=
  if beginning.toList.isPrefixOf name.toList then
    some (String.ofList (name.toList.drop beginning.toList.length))
  else none

/-- Every name that may be completed: the bound ones, and the special forms that are not bound. -/
def Environment.completable (env : Environment ω) : List String :=
  env.names ++ specialForms.filter fun word => !env.contains word

/-- What may follow at byte `position` of a line, in the order of code points. -/
def candidates (env : Environment ω) (line : String) (position : Nat) : List String :=
  match atomBefore? (charsBefore position line.toList) with
  | some atom => (env.completable.filterMap (restOfName? atom)).mergeSort
  | none => []

end MiniLisp
