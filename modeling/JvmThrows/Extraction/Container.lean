import JvmThrows.Extraction.Scan
import JvmThrows.MethodId
import JvmThrows.Walk
import Std.Data.ExtTreeMap

/-!
# Looking up classes of a container

Superclasses, exception handlers and the declarations that calls refer to, as far as the classes of
one container tell. Names are internal.
-/

namespace JvmThrows

/-- Superclasses of exceptions of the platform, which containers rarely hold themselves. -/
def platformSuperclasses : List (String × String) :=
  [("java/lang/Exception", "java/lang/Throwable"),
    ("java/lang/Error", "java/lang/Throwable"),
    ("java/lang/RuntimeException", "java/lang/Exception"),
    ("java/lang/IllegalArgumentException", "java/lang/RuntimeException"),
    ("java/lang/NumberFormatException", "java/lang/IllegalArgumentException"),
    ("java/lang/IllegalStateException", "java/lang/RuntimeException"),
    ("java/lang/IndexOutOfBoundsException", "java/lang/RuntimeException"),
    ("java/lang/ArrayIndexOutOfBoundsException", "java/lang/IndexOutOfBoundsException"),
    ("java/lang/StringIndexOutOfBoundsException", "java/lang/IndexOutOfBoundsException"),
    ("java/lang/NullPointerException", "java/lang/RuntimeException"),
    ("java/lang/ClassCastException", "java/lang/RuntimeException"),
    ("java/lang/ArithmeticException", "java/lang/RuntimeException"),
    ("java/lang/ArrayStoreException", "java/lang/RuntimeException"),
    ("java/lang/NegativeArraySizeException", "java/lang/RuntimeException"),
    ("java/lang/UnsupportedOperationException", "java/lang/RuntimeException"),
    ("java/lang/SecurityException", "java/lang/RuntimeException"),
    ("java/util/NoSuchElementException", "java/lang/RuntimeException"),
    ("java/util/ConcurrentModificationException", "java/lang/RuntimeException"),
    ("java/io/UncheckedIOException", "java/lang/RuntimeException"),
    ("java/lang/InterruptedException", "java/lang/Exception"),
    ("java/lang/CloneNotSupportedException", "java/lang/Exception"),
    ("java/lang/ReflectiveOperationException", "java/lang/Exception"),
    ("java/lang/ClassNotFoundException", "java/lang/ReflectiveOperationException"),
    ("java/lang/NoSuchMethodException", "java/lang/ReflectiveOperationException"),
    ("java/io/IOException", "java/lang/Exception"),
    ("java/io/FileNotFoundException", "java/io/IOException"),
    ("java/io/EOFException", "java/io/IOException"),
    ("java/io/UnsupportedEncodingException", "java/io/IOException"),
    ("java/lang/AssertionError", "java/lang/Error"),
    ("java/lang/LinkageError", "java/lang/Error"),
    ("java/lang/VirtualMachineError", "java/lang/Error"),
    ("java/lang/OutOfMemoryError", "java/lang/VirtualMachineError"),
    ("java/lang/StackOverflowError", "java/lang/VirtualMachineError")]

/-- The classes of a container by name. -/
abbrev Container := Std.ExtTreeMap String ClassFile

namespace Container

/-- Of classes with one name the last counts. -/
def ofList (classes : List ClassFile) : Container :=
  classes.foldl (fun container c => container.insert c.name c) ∅

/-- The superclass; for a class outside the container, as the platform has it. -/
def superclass? (container : Container) (name : String) : Option String :=
  match container[name]? with
  | some c => c.superclass
  | none => platformSuperclasses.lookup name

/-- How many classes of a chain of superclasses are looked at. -/
def maxChain : Nat := 64

/-- Whether a class is among the first `n` of a chain of superclasses. -/
def isOnChain (container : Container) (ancestor : String) : Nat → String → Bool
  | 0, _ => false
  | n + 1, name =>
    name == ancestor ||
      match container.superclass? name with
      | some parent => isOnChain container ancestor n parent
      | none => false

def isSubclass (container : Container) (name ancestor : String) : Bool :=
  container.isOnChain ancestor maxChain name

/-- Whether a handler that covers `pc` and names a class catches the exception. -/
def isCaught (container : Container) (handlers : List Handler) (pc : Nat) (exception : String) :
    Bool :=
  handlers.any fun h => h.covers pc && h.catchType.any (container.isSubclass exception)

/-- From a class to its superclass first, and to its interfaces after everything else. -/
def lookupGraph (container : Container) : Graph String where
  first name := (container[name]?.bind (·.superclass)).toList
  later name := (container[name]?.map (·.interfaces)).getD []
  support := container.keys
  eq_nil_of_not_mem x h := by
    have : container[x]? = none := by
      simpa [Std.ExtTreeMap.mem_keys] using h
    simp [this]

/-- The method of the container that a reference names, if the class declares it. -/
def declared? (container : Container) (name descriptor : String) (owner : String) :
    Option MethodId :=
  match container[owner]? with
  | some c => (c.method? name descriptor).map fun m => ⟨c.name, m.name, m.descriptor⟩
  | none => none

/-- The declaration that a reference leads to: of the class it names, of its superclasses, of their
interfaces. -/
def resolve? (container : Container) (target : MemberRef) : Option MethodId :=
  (container.lookupGraph.visit [] [target.owner]).findSome?
    (container.declared? target.name target.descriptor)

end Container

end JvmThrows
