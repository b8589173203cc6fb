import JvmThrows.Entries
import JvmThrows.Extraction.Container

/-!
# Call graphs

The methods of a container: the exceptions that each one raises by itself, and the methods of the
container that it calls.
-/

namespace JvmThrows

/-- Which exceptions to collect. -/
structure Sources where
  declared : Bool := true
  thrown : Bool := true
  /-- Exceptions that escape from called methods. -/
  calls : Bool := true
  deriving DecidableEq, Repr

/-- What matters of a method. Names are internal. -/
structure CallNode where
  id : MethodId
  handlers : List Handler
  /-- Exceptions that it declares, and that it throws and does not catch. -/
  own : List String
  /-- Called methods of the container, with the position of the call. -/
  calls : List (Nat × MethodId)

namespace CallNode

/-- The exceptions that a body throws and does not catch. -/
def uncaught (container : Container) (code : Code) : List String :=
  (code.thrown.filter fun (pc, e) => !container.isCaught code.handlers pc e).map (·.2)

def ofMethod (container : Container) (sources : Sources) (c : ClassFile) (m : Method) :
    CallNode where
  id := ⟨c.name, m.name, m.descriptor⟩
  handlers := (m.code.map (·.handlers)).getD []
  own :=
    (if sources.declared then m.declared else []) ++
    (if sources.thrown then (m.code.map (uncaught container)).getD [] else [])
  calls :=
    if sources.calls then
      ((m.code.map (·.calls)).getD []).filterMap fun (pc, target) =>
        (container.resolve? target).map (pc, ·)
    else []

/-- The first node of each method. -/
def keepFirst : List CallNode → List CallNode
  | [] => []
  | n :: rest => n :: (keepFirst rest).filter (·.id != n.id)

end CallNode

/-- The methods of a container and their calls. -/
structure CallGraph where
  container : Container
  nodes : List CallNode

namespace CallGraph

def ofClasses (sources : Sources) (classes : List ClassFile) : CallGraph :=
  let container := Container.ofList classes
  { container
    nodes := CallNode.keepFirst <|
      classes.flatMap fun c => c.methods.map (CallNode.ofMethod container sources c) }

/-- All exceptions that some method has as its own. -/
def candidates (g : CallGraph) : List String := g.nodes.flatMap (·.own)

/-- The exceptions that each method has as its own. -/
def own (g : CallGraph) : Entries :=
  g.nodes.foldl (fun found n => found.add n.id (.ofList n.own)) ∅

end CallGraph

end JvmThrows
