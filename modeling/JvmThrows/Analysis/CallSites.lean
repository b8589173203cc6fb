import JvmThrows.Analysis.Resolve
import JvmThrows.CallManifest

/-!
# Exceptions at call sites

Maps the calls in a range of a source file to the exceptions that may escape from them. Calls whose
target is unknown or not compiled contribute nothing.
-/

namespace JvmThrows

/-- An exception that may escape from a call. -/
structure Discovery where
  exception : String
  call : Call
  target : Callable
  deriving DecidableEq, Repr

namespace Discovery

instance : Ord Discovery where
  compare := compareLex (compareOn exception) (compareLex (compareOn call) (compareOn target))

instance : Std.TransOrd Discovery :=
  inferInstanceAs (Std.TransCmp
    (compareLex (compareOn exception) (compareLex (compareOn call) (compareOn target))))

def toJson (d : Discovery) : Json :=
  .object [("exception_type", .string d.exception), ("call_site", d.call.toJson),
    ("method", d.target.toJson)]

end Discovery

/-- Discoveries by exception. -/
abbrev Discoveries := Std.ExtTreeMap String (Std.ExtTreeSet Discovery)

namespace Discoveries

def add (found : Discoveries) (d : Discovery) : Discoveries :=
  found.insert d.exception (((found[d.exception]?).getD ∅).insert d)

def toJson (found : Discoveries) : Json :=
  .object (found.toList.map fun (exception, ds) => (exception, .array (ds.toList.map (·.toJson))))

end Discoveries

/-- What the cache holds for a method after a look into a container for its class. -/
def Analysis.lookInto (setup : Setup) (m : MethodId) (container : Option Path) :
    Analysis Exceptions := do
  match container with
  | none => pure ()
  | some path =>
    if ← isCached setup m.owner then pure ()
    else do
      let entry := ClasspathEntry.ofPath (← get).world.files path
      let _ ← (scanClasses setup entry [m.owner] false).run
  cachedExceptions setup m

/-- What a call refers to, if it is compiled: target, method and container. -/
def Call.compiledTarget? (call : Call) : Option (Callable × MethodId × Path) := do
  let target ← call.target
  let m ← target.identity?
  let container ← target.origin.container?
  return (target, m, container)

namespace Inquiry

/-- The exceptions of a method: those of all that a call may run, if the index knows it, or what the
cache holds after a look into the container of its class. -/
def exceptionsFor (setup : Setup) (classpath : List ClasspathEntry) (m : MethodId)
    (container : Option Path) : Inquiry Exceptions := do
  Analysis.ensureIndexed classpath
  match ← resolve setup m with
  | some exceptions => return exceptions
  | none => Analysis.lookInto setup m container

/-- Adds the discoveries at calls. -/
def discover (setup : Setup) (classpath : List ClasspathEntry) :
    Discoveries → List Call → Inquiry Discoveries
  | found, [] => pure found
  | found, call :: rest => do
    match call.compiledTarget? with
    | none => discover setup classpath found rest
    | some (target, m, container) =>
      let exceptions ← exceptionsFor setup classpath m (some container)
      let found := exceptions.toList.foldl (fun found e => found.add ⟨e, call, target⟩) found
      discover setup classpath found rest

/-- The discoveries at the calls from `start` up to `stop`. -/
def analyze (setup : Setup) (classpath : List ClasspathEntry) (manifest : CallManifest)
    (start stop : Nat) : Inquiry Discoveries := do
  let calls := manifest.callsIn start stop
  if calls.isEmpty then return ∅
  Analysis.ensureIndexed classpath
  discover setup classpath ∅ calls

end Inquiry

namespace Analysis

def exceptionsFor (setup : Setup) (classpath : List ClasspathEntry) (m : MethodId)
    (container : Option Path) : Analysis Exceptions :=
  (Inquiry.exceptionsFor setup classpath m container).await ∅

def analyze (setup : Setup) (classpath : List ClasspathEntry) (manifest : CallManifest)
    (start stop : Nat) : Analysis Discoveries :=
  (Inquiry.analyze setup classpath manifest start stop).await ∅

end Analysis

end JvmThrows
