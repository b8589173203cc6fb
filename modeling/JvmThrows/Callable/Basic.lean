import JvmThrows.MethodId
import JvmThrows.Origin
import JvmThrows.TypeText.Erasure

/-!
# Callables

A call target as an editor resolved it: the declaration in its source dialect, with type texts. A
callable with a known owner has a method identity, the key under which its exceptions are found.
-/

namespace JvmThrows

instance : Ord TypeParameter where
  compare := compareLex (compareOn TypeParameter.name) (compareOn TypeParameter.bounds)

instance : Std.TransOrd TypeParameter :=
  inferInstanceAs (Std.TransCmp (compareLex (compareOn TypeParameter.name)
    (compareOn TypeParameter.bounds)))

structure Modifiers where
  isStatic : Bool := false
  isFinal : Bool := false
  isPrivate : Bool := false
  isAbstract : Bool := false
  isConstructor : Bool := false
  deriving DecidableEq, Repr

/-- The flags in the order in which they are compared and written. -/
def Modifiers.toList (m : Modifiers) : List Bool :=
  [m.isStatic, m.isFinal, m.isPrivate, m.isAbstract, m.isConstructor]

structure Callable where
  dialect : Dialect
  /-- Qualified name of the class or declaration around it, if there is one. -/
  owner : Option String
  name : String
  parameterTypes : List String
  /-- Nothing for constructors and for what returns no value. -/
  returnType : Option String
  /-- Type variables in scope, those of the class included. -/
  typeParameters : List TypeParameter
  modifiers : Modifiers
  origin : Origin
  deriving DecidableEq, Repr

/-- Java comes before Kotlin. -/
def Dialect.rank : Dialect → Nat
  | java => 0
  | kotlin => 1

namespace Callable

/-- The order of callables: dialect, then field by field. -/
def order : Callable → Callable → Ordering :=
  compareLex (compareOn fun c => c.dialect.rank) <|
  compareLex (compareOn owner) <|
  compareLex (compareOn name) <|
  compareLex (compareOn parameterTypes) <|
  compareLex (compareOn returnType) <|
  compareLex (compareOn typeParameters) <|
  compareLex (compareOn fun c => c.modifiers.toList) (compareOn origin)

instance : Ord Callable := ⟨order⟩

instance : Std.TransOrd Callable :=
  inferInstanceAs (Std.TransCmp <|
    compareLex (compareOn fun c : Callable => c.dialect.rank) <|
    compareLex (compareOn owner) <|
    compareLex (compareOn name) <|
    compareLex (compareOn parameterTypes) <|
    compareLex (compareOn returnType) <|
    compareLex (compareOn typeParameters) <|
    compareLex (compareOn fun c : Callable => c.modifiers.toList) (compareOn origin))

/-- The erased descriptor; constructors return nothing. -/
def descriptor (c : Callable) : String :=
  TypeText.methodDescriptor c.dialect c.parameterTypes
    (if c.modifiers.isConstructor then none else c.returnType) c.typeParameters

/-- The name in class files. -/
def jvmName (c : Callable) : String := if c.modifiers.isConstructor then "<init>" else c.name

/-- The binary name of an owner. -/
def ownerClass (dialect : Dialect) (owner : String) : String :=
  match dialect with
  | .java => ClassName.ofQualified owner
  | .kotlin => TypeText.Kotlin.toJvmClass owner

/-- The compiled method, if the owner is known. -/
def identity? (c : Callable) : Option MethodId :=
  c.owner.map fun owner => ⟨ownerClass c.dialect owner, c.jvmName, c.descriptor⟩

end Callable

end JvmThrows
