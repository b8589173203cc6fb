import JvmThrows.Analysis.Dispatch
import JvmThrows.Cache.Store
import JvmThrows.Extraction.Escape

/-!
# Sessions

The state of an analysis: the world it runs in, the containers it has passed through, and what its
resolver has learned.
-/

namespace JvmThrows

structure World where
  files : FileTree
  memory : Memory := ∅

/-- A store in files, as a store of the world. -/
def Store.inFiles (store : Store FileTree) : Store World :=
  store.within (·.files) fun files world => { world with files }

/-- A store in memory, as a store of the world. -/
def Store.inMemory (store : Store Memory) : Store World :=
  store.within (·.memory) fun memory world => { world with memory }

/-- What a resolver knows. -/
structure Resolver where
  index : ClasspathIndex
  /-- Answers given so far. -/
  known : Std.ExtTreeMap MethodId Exceptions := ∅
  /-- Keys that the cache is known to hold. -/
  ensured : Std.ExtTreeSet String := ∅
  /-- Containers that were scanned, or could not be. -/
  scanned : Std.ExtTreeSet ClasspathEntry := ∅

structure Session where
  world : World
  /-- The containers that were read through, or could not be, one after the other. -/
  reads : List ClasspathEntry := []
  resolver : Option Resolver := none

/-- How many times a container was read through. -/
def Session.scans (s : Session) : Nat := s.reads.length

/-- What a session works with. -/
structure Setup where
  store : Store World
  sources : Sources := {}

abbrev Analysis := StateM Session

/-- An analysis that looks for the targets of calls, and perhaps never ends. -/
abbrev Inquiry := StateT Session Eventually

namespace Inquiry

instance : MonadLift Analysis Inquiry where
  monadLift run s := some (run s)

/-- Waits for an inquiry. For one that never ends this is in vain, whatever stands for its
result. -/
def await {α : Type} (inquiry : Inquiry α) (never : α) : Analysis α := fun s =>
  (inquiry s).getD (never, s)

end Inquiry

namespace Analysis

def onWorld {α : Type} (run : StateM World α) : Analysis α :=
  onPart (·.world) (fun world s => { s with world }) run

/-- Whether results for a class are cached. -/
def isCached (setup : Setup) (c : String) : Analysis Bool := onWorld (setup.store.contains c)

/-- The cached exceptions of a method. -/
def cachedExceptions (setup : Setup) (m : MethodId) : Analysis Exceptions :=
  onWorld (setup.store.exceptionsOf m)

end Analysis

end JvmThrows
