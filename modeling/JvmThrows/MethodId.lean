import JvmThrows.ClassName
import JvmThrows.Descriptor
import JvmThrows.Text.Blank

/-!
# Method identities

A compiled method is known by the binary name of its class, its name and its descriptor. Identities
are ordered by owner, name and descriptor, and are written `owner.name(params)return`.
-/

namespace JvmThrows

open Text

@[ext] structure MethodId where
  /-- Binary name of the declaring class. -/
  owner : String
  name : String
  descriptor : String
  deriving DecidableEq, Repr

namespace MethodId

instance : Ord MethodId where
  compare := compareLex (compareOn MethodId.owner)
    (compareLex (compareOn MethodId.name) (compareOn MethodId.descriptor))

instance : Std.TransOrd MethodId :=
  inferInstanceAs (Std.TransCmp (compareLex (compareOn MethodId.owner)
    (compareLex (compareOn MethodId.name) (compareOn MethodId.descriptor))))

instance : Std.LawfulEqOrd MethodId where
  eq_of_compare {a b} h := by
    obtain ⟨o, n, d⟩ := a
    obtain ⟨o', n', d'⟩ := b
    simp only [compare, compareLex, Ordering.then_eq_eq] at h
    obtain ⟨h1, h2, h3⟩ := h
    have h1 := Std.LawfulEqOrd.eq_of_compare h1
    have h2 := Std.LawfulEqOrd.eq_of_compare h2
    have h3 := Std.LawfulEqOrd.eq_of_compare h3
    simp_all

/-- The written form. -/
def display (m : MethodId) : String := m.owner ++ "." ++ m.name ++ m.descriptor

/-- The same method on another class. -/
def withOwner (m : MethodId) (owner : String) : MethodId := { m with owner }

/-- Reads the written form, with blanks around it allowed: the descriptor begins at the first
parenthesis, the name after the last dot before it. -/
def parse? (text : String) : Option MethodId :=
  let s := trim text.toList
  match s.span (· != '(') with
  | (_, []) => none
  | (qualified, descriptor) =>
    match cutLast '.' qualified with
    | none => none
    | some (owner, name) =>
      if owner.isEmpty || name.isEmpty then none
      else
        match MethodDescriptor.parse (String.ofList descriptor) with
        | .error _ => none
        | .ok _ => some ⟨String.ofList owner, String.ofList name, String.ofList descriptor⟩

/-- What is said of a text that is no method. -/
def invalidMessage (text : String) : String :=
  "invalid method `" ++ text ++ "` (expected `owner.name(descriptor)return`)"

end MethodId

end JvmThrows
