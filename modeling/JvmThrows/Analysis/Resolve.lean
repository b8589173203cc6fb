import JvmThrows.Analysis.Scan

/-!
# Resolving calls

The exceptions of a call are those of all declarations it may run. Containers are scanned when their
results are first needed, each at most once in a session.
-/

namespace JvmThrows

namespace Analysis

/-- Indexes a class path, unless that is done. -/
def ensureIndexed (classpath : List ClasspathEntry) : Analysis Unit :=
  modify fun s =>
    match s.resolver with
    | some _ => s
    | none => { s with resolver := some { index := ClasspathIndex.build s.world.files classpath } }

/-- Forgets all that was learned. -/
def reset : Analysis Unit := modify fun s => { s with resolver := none }

def setResolver (r : Resolver) : Analysis Unit := modify fun s => { s with resolver := some r }

/-- The containers to scan for targets, each with the keys it is scanned for. -/
abbrev Missing := Std.ExtTreeMap ClasspathEntry (List String)

/-- Notes where to find a target of which nothing is cached. -/
def missingOf (r : Resolver) (missing : Missing) (target : MethodId) : Missing :=
  match r.index.containerOf? target.owner with
  | none => missing
  | some container =>
    if r.scanned.contains container then missing
    else missing.insert container (((missing[container]?).getD []) ++ [Cache.key target.owner])

/-- Finds out which targets the cache lacks. -/
def findMissing (setup : Setup) : Resolver → Missing → List MethodId → Analysis (Resolver × Missing)
  | r, missing, [] => pure (r, missing)
  | r, missing, target :: rest => do
    let key := Cache.key target.owner
    if r.ensured.contains key then findMissing setup r missing rest
    else if ← isCached setup key then
      findMissing setup { r with ensured := r.ensured.insert key } missing rest
    else findMissing setup r (missingOf r missing target) rest

/-- Leaves out repetitions that follow each other. -/
def dropRepeats : List String → List String
  | a :: b :: rest => if a = b then dropRepeats (b :: rest) else a :: dropRepeats (b :: rest)
  | keys => keys

/-- The keys that are wanted or not cached. -/
def keysToWrite (setup : Setup) (wanted : List String) : List String → Analysis (List String)
  | [] => pure []
  | key :: rest => do
    let needed ← if wanted.contains key then pure true else do pure (!(← isCached setup key))
    let keys ← keysToWrite setup wanted rest
    return if needed then key :: keys else keys

/-- Scans a container for all its classes that the cache lacks, so that it is not needed again. -/
def scanMissing (setup : Setup) (r : Resolver) (container : ClasspathEntry)
    (wanted : List String) : Analysis Resolver := do
  let keys := (r.index.classesIn container).map Cache.key
  let keys ← keysToWrite setup wanted (dropRepeats (keys.filter (!r.ensured.contains ·)))
  let r := { r with scanned := r.scanned.insert container }
  match ← (scanClasses setup container keys false).run with
  | .ok written => return { r with ensured := written.foldl (·.insert ·) r.ensured }
  | .error _ => return r

def scanAllMissing (setup : Setup) :
    Resolver → List (ClasspathEntry × List String) → Analysis Resolver
  | r, [] => pure r
  | r, (container, wanted) :: rest => do
    let r ← scanMissing setup r container wanted
    scanAllMissing setup r rest

/-- Sees to it that the results for all targets are cached, as far as they can be had. -/
def ensureCached (setup : Setup) (r : Resolver) (targets : List MethodId) : Analysis Resolver := do
  let (r, missing) ← findMissing setup r ∅ targets
  scanAllMissing setup r missing.toList

/-- All cached exceptions of the targets. -/
def unionOf (setup : Setup) : Exceptions → List MethodId → Analysis Exceptions
  | found, [] => pure found
  | found, target :: rest => do
    let exceptions ← cachedExceptions setup target
    unionOf setup (exceptions.foldl (·.insert ·) found) rest

/-- The exceptions of all targets of a call, kept as the answer to it. -/
def answer (setup : Setup) (r : Resolver) (m : MethodId) (targets : List MethodId) :
    Analysis Exceptions := do
  let r ← ensureCached setup r targets
  let exceptions ← unionOf setup ∅ targets
  setResolver { r with known := r.known.insert m exceptions }
  return exceptions

end Analysis

/-- The exceptions of all that a call may run; nothing if the method is unknown to the index, or if
there is none. -/
def Inquiry.resolve (setup : Setup) (m : MethodId) : Inquiry (Option Exceptions) := do
  match (← get).resolver with
  | none => return none
  | some r =>
    match r.known[m]? with
    | some exceptions => return some exceptions
    | none =>
      match ← StateT.lift (r.index.targets? m) with
      | none => return none
      | some targets =>
        let exceptions ← Analysis.answer setup r m targets.toList
        return some exceptions

def Analysis.resolve (setup : Setup) (m : MethodId) : Analysis (Option Exceptions) :=
  (Inquiry.resolve setup m).await none

end JvmThrows
