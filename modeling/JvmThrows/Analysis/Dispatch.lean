import JvmThrows.Classpath.Index
import JvmThrows.MethodId

/-!
# Virtual dispatch

Which declarations a call may run: the declaration that the call refers to and, if it can be
overridden, what instances of the known subtypes would run instead.
-/

namespace JvmThrows

/-- What is computed, if that ever ends; nothing if it goes on for ever. -/
abbrev Eventually := Option

namespace ClasspathIndex

def superclass? (index : ClasspathIndex) (name : String) : Option String :=
  (index.class? name).bind (·.superclass)

/-- What a class says to a question that goes up the superclasses. -/
inductive Reply (α : Type) where
  /-- The question ends here, perhaps with nothing. -/
  | answer (found : Option α)
  | passOn

/-- Puts a question to a class, then to its superclasses, up to the first that answers or the last
that is known. Nobody notes who was asked: in a cycle of superclasses that all pass the question on,
there is no end to it. -/
def climb {α : Type} (index : ClasspathIndex) (ask : String → Reply α) (name : String) :
    Eventually (Option α) :=
  match ask name with
  | .answer found => some found
  | .passOn =>
    match index.superclass? name with
    | none => some none
    | some above => index |>.climb ask above
partial_fixpoint

/-- A class with its declaration of a method. -/
def declaredIn? (index : ClasspathIndex) (m : MethodId) (name : String) :
    Option (ClassStub × MethodStub) :=
  (index.class? name).bind fun c => (c.method? m.name m.descriptor).map (c, ·)

/-- A class that declares the method answers with its declaration. -/
def askDeclaration (index : ClasspathIndex) (m : MethodId) (name : String) :
    Reply (ClassStub × MethodStub) :=
  match index.declaredIn? m name with
  | some found => .answer (some found)
  | none => .passOn

/-- The declaration that a reference through a class leads to: its own, that of a superclass, that
of any supertype. -/
def declaration? (index : ClasspathIndex) (owner : ClassStub) (m : MethodId) :
    Eventually (Option (ClassStub × MethodStub)) := do
  match ← index.climb (index.askDeclaration m) owner.name with
  | some found => return some found
  | none => return (index.hierarchy.allSupertypes owner.name).findSome? (index.declaredIn? m)

/-- Whether a class itself declares the method for its instances. -/
def declaresInstance (c : ClassStub) (m : MethodId) : Bool :=
  (c.method? m.name m.descriptor).any fun d => !d.access.isStatic

/-- A class that declares the method for its instances answers with its name, and a class of the
subtree with nothing. -/
def askInherited (index : ClasspathIndex) (m : MethodId) (subtree : List String) (name : String) :
    Reply String :=
  if subtree.contains name then .answer none
  else
    match index.class? name with
    | none => .answer none
    | some c => if declaresInstance c m then .answer (some c.name) else .passOn

/-- What instances of a subtype run, unless it is found through other subtypes. -/
def implementation? (index : ClasspathIndex) (m : MethodId) (subtree : List String)
    (subtype : String) : Eventually (Option MethodId) :=
  match index.class? subtype with
  | none => some none
  | some c =>
    if declaresInstance c m then some (some (m.withOwner subtype))
    else
      match c.superclass with
      | none => some none
      | some above => do
        let found ← index.climb (index.askInherited m subtree) above
        return found.map m.withOwner

/-- Whether instances of subtypes may run another declaration. -/
def isOverridable (owner : ClassStub) (d : MethodStub) : Bool :=
  !d.access.isStatic && !d.access.isPrivate && !d.access.isFinal && !isInitializerName d.name &&
    !owner.access.isFinal

/-- The declarations that a call may run; nothing if the class or the declaration is unknown. -/
def targets? (index : ClasspathIndex) (m : MethodId) :
    Eventually (Option (Std.ExtTreeSet MethodId)) :=
  match index.class? m.owner with
  | none => some none
  | some owner => do
    match ← index.declaration? owner m with
    | none => return none
    | some (declaring, d) =>
      let base := m.withOwner declaring.name
      if isOverridable owner d then
        let subtypes := index.hierarchy.allSubtypes owner.name
        let found ← subtypes.mapM (index.implementation? m (owner.name :: subtypes))
        return some (.ofList (base :: found.reduceOption))
      else return some (.ofList [base])

end ClasspathIndex

end JvmThrows
