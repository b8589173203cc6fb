import JvmThrows.ClassFile.Basic
import JvmThrows.ClassName
import JvmThrows.Walk
import Std.Data.ExtTreeMap
import Std.Data.ExtTreeSet

/-!
# The inheritance graph

Which classes extend or implement which, by binary name. Classes outside the known ones appear as
ends of edges. Transitive relations are listed nearest first.
-/

namespace JvmThrows

/-- The names related to a name, in order. -/
abbrev Relation := Std.ExtTreeMap String (Std.ExtTreeSet String)

namespace Relation

def related (r : Relation) (name : String) : List String :=
  match r[name]? with
  | some names => names.toList
  | none => []

/-- Relates one name to another. -/
def relate (r : Relation) (a b : String) : Relation :=
  r.insert a (((r[a]?).getD ∅).insert b)

/-- Breadth-first over the relation. -/
def graph (r : Relation) : Graph String where
  first _ := []
  later := r.related
  support := r.keys
  eq_nil_of_not_mem x h := by
    have : r[x]? = none := by
      simpa [Std.ExtTreeMap.mem_keys] using h
    simp [related, this]

/-- The names reached by one step or more, nearest first. -/
def reachable (r : Relation) (name : String) : List String :=
  r.graph.visit [] (r.related name)

end Relation

structure Hierarchy where
  subtypes : Relation := ∅
  supertypes : Relation := ∅

namespace Hierarchy

/-- Adds a subtype and its supertype. -/
def addEdge (h : Hierarchy) (edge : String × String) : Hierarchy where
  subtypes := h.subtypes.relate edge.2 edge.1
  supertypes := h.supertypes.relate edge.1 edge.2

def extend (h : Hierarchy) (edges : List (String × String)) : Hierarchy := edges.foldl addEdge h

/-- The edges from a class to what it extends and implements. -/
def edgesOf (name : String) (supertypes : List String) : List (String × String) :=
  supertypes.map fun s => (ClassName.toBinary name, ClassName.toBinary s)

def classEdges (c : ClassFile) : List (String × String) :=
  edgesOf c.name (c.superclass.toList ++ c.interfaces)

def ofClasses (classes : List ClassFile) : Hierarchy :=
  extend {} (classes.flatMap classEdges)

def directSubtypes (h : Hierarchy) (name : String) : List String := h.subtypes.related name

def directSupertypes (h : Hierarchy) (name : String) : List String := h.supertypes.related name

/-- All known subtypes, nearest first. -/
def allSubtypes (h : Hierarchy) (name : String) : List String := h.subtypes.reachable name

/-- All known supertypes, nearest first. -/
def allSupertypes (h : Hierarchy) (name : String) : List String := h.supertypes.reachable name

def isSubtype (h : Hierarchy) (name ancestor : String) : Bool :=
  name == ancestor || (h.allSupertypes name).contains ancestor

end Hierarchy

end JvmThrows
