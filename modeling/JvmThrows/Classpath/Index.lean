import JvmThrows.Classpath.Read
import JvmThrows.Hierarchy

/-!
# The index of a class path

Every class that a class path defines, where it comes from, and the inheritance graph. If several
entries define a class, the first one counts. Entries that cannot be read are left out.
-/

namespace JvmThrows

structure MethodStub where
  name : String
  descriptor : String
  access : AccessFlags
  deriving DecidableEq, Repr

/-- What the index keeps of a class. Other classes are given by binary name. -/
structure ClassStub where
  name : String
  internalName : String
  access : AccessFlags
  superclass : Option String
  interfaces : List String
  methods : List MethodStub
  deriving DecidableEq, Repr

namespace ClassStub

def ofClass (c : ClassFile) : ClassStub where
  name := ClassName.toBinary c.name
  internalName := c.name
  access := c.access
  superclass := c.superclass.map ClassName.toBinary
  interfaces := c.interfaces.map ClassName.toBinary
  methods := c.methods.map fun m => ⟨m.name, m.descriptor, m.access⟩

/-- The first method of a name and descriptor. -/
def method? (c : ClassStub) (name descriptor : String) : Option MethodStub :=
  c.methods.find? fun m => m.name == name && m.descriptor == descriptor

/-- The edges to what it extends and implements. -/
def edges (c : ClassStub) : List (String × String) :=
  (c.superclass.toList ++ c.interfaces).map (c.name, ·)

end ClassStub

/-- A class and the number of the container that it comes from. -/
structure IndexedClass where
  stub : ClassStub
  container : Nat

structure ClasspathIndex where
  /-- The containers that could be read, with canonical paths. -/
  containers : List ClasspathEntry
  classes : Std.ExtTreeMap String IndexedClass
  hierarchy : Hierarchy
  /-- The entries that could not be read. -/
  unavailable : List ClasspathEntry

namespace ClasspathIndex

/-- A class of the container with the given number; a class that is there already stays. -/
def addClass (container : Nat) (classes : Std.ExtTreeMap String IndexedClass) (c : ClassFile) :
    Std.ExtTreeMap String IndexedClass :=
  let stub := ClassStub.ofClass c
  if classes.contains stub.name then classes else classes.insert stub.name ⟨stub, container⟩

/-- The classes of containers, which are numbered from `first`. -/
def collect (first : Nat) (classes : Std.ExtTreeMap String IndexedClass) :
    List (List ClassFile) → Std.ExtTreeMap String IndexedClass
  | [] => classes
  | container :: rest => collect (first + 1) (container.foldl (addClass first) classes) rest

/-- A container with its canonical path and its classes. -/
def load (tree : FileTree) (e : ClasspathEntry) :
    Except ContainerError (ClasspathEntry × List ClassFile) :=
  match e.normalize tree with
  | .error cause => .error (.file cause)
  | .ok e => (e.classes tree).map (e, ·)

def build (tree : FileTree) (entries : List ClasspathEntry) : ClasspathIndex :=
  let loaded := entries.map fun e => (e, load tree e)
  let readable := loaded.filterMap fun (_, result) => result.toOption
  let classes := collect 0 ∅ (readable.map (·.2))
  { containers := readable.map (·.1)
    classes
    hierarchy := Hierarchy.extend {} (classes.toList.flatMap (·.2.stub.edges))
    unavailable := loaded.filterMap fun (e, result) => if result.toBool then none else some e }

def class? (index : ClasspathIndex) (name : String) : Option ClassStub :=
  (index.classes[name]?).map (·.stub)

/-- The container that a class comes from. -/
def containerOf? (index : ClasspathIndex) (name : String) : Option ClasspathEntry :=
  (index.classes[name]?).bind fun c => index.containers[c.container]?

/-- The names of the classes that come from a container, in order. -/
def classesIn (index : ClasspathIndex) (container : ClasspathEntry) : List String :=
  match index.containers.findIdx? (·.same container) with
  | none => []
  | some n => (index.classes.toList.filter (·.2.container == n)).map (·.1)

end ClasspathIndex

end JvmThrows
