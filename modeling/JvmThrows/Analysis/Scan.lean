import JvmThrows.Analysis.Session

/-!
# Scanning containers

Extracts the exceptions of the classes of a container and adds them to the cache: all of them, or
those of requested classes and, on demand, of related classes that the cache lacks.
-/

namespace JvmThrows

inductive AnalysisError where
  | containerUnavailable (path : Path) (cause : ContainerError)
  | cache (cause : CacheError)
  deriving DecidableEq, Repr

/-- The message of an error and those of the causes below it. -/
def AnalysisError.messages : AnalysisError → List String
  | containerUnavailable path cause =>
    ("container " ++ path.text ++ " is unavailable: " ++ cause.messages.headD "") :: cause.messages
  | cache cause => ("cache error: " ++ cause.message) :: cause.messages

/-- Results by key. -/
abbrev Groups := Std.ExtTreeMap String Entries

namespace Groups

/-- A group for a key, perhaps without results. -/
def reserve (groups : Groups) (key : String) : Groups :=
  groups.insert key ((groups[key]?).getD ∅)

/-- Puts the results for a method into the group of its class. -/
def record (groups : Groups) (m : MethodId) (exceptions : Exceptions) : Groups :=
  let key := Cache.key m.owner
  groups.insert key (((groups[key]?).getD ∅).insert m exceptions)

/-- The results for all classes; a class without methods has a group, too. -/
def ofClasses (sources : Sources) (classes : List ClassFile) : Groups :=
  let keys := classes.foldl
    (fun groups c => groups.reserve (Cache.key (ClassName.toBinary c.name))) ∅
  (extract sources classes).foldl record keys

end Groups

namespace Analysis

/-- Reads the classes of a container. -/
def readContainer (container : ClasspathEntry) : ExceptT AnalysisError Analysis (List ClassFile) :=
  fun s =>
    let s := { s with reads := s.reads ++ [container] }
    match container.classes s.world.files with
    | .ok classes => (.ok classes, s)
    | .error cause => (.error (.containerUnavailable container.path cause), s)

/-- Adds results for one key to the cache. -/
def writeKey (setup : Setup) (key : String) (entries : Entries) :
    ExceptT AnalysisError Analysis Unit := do
  match ← ExceptT.lift (onWorld (setup.store.merge key entries).run) with
  | .ok () => pure ()
  | .error cause => throw (.cache cause)

/-- Adds results to the cache, key by key. -/
def write (setup : Setup) : List (String × Entries) → ExceptT AnalysisError Analysis Unit
  | [] => pure ()
  | (key, entries) :: rest => do
    writeKey setup key entries
    write setup rest

/-- Scans all classes of a container; gives the keys in order. -/
def scan (setup : Setup) (container : ClasspathEntry) :
    ExceptT AnalysisError Analysis (List String) := do
  let classes ← readContainer container
  let groups := Groups.ofClasses setup.sources classes
  write setup groups.toList
  return groups.keys

/-- The keys of classes that have a group and are not cached. -/
def uncachedKeys (setup : Setup) (groups : Groups) : List String → Analysis (List String)
  | [] => pure []
  | name :: rest => do
    let key := Cache.key name
    let wanted ← if groups.contains key then do pure (!(← isCached setup key)) else pure false
    let keys ← uncachedKeys setup groups rest
    return if wanted then key :: keys else keys

/-- The supertypes and subtypes of requested classes, in any spelling. -/
def relatedNames (classes : List ClassFile) (requested : List String) : List String :=
  let hierarchy := Hierarchy.ofClasses classes
  requested.flatMap fun c =>
    let name := ClassName.ofQualified (ClassName.toBinary c)
    hierarchy.allSupertypes name ++ hierarchy.allSubtypes name

/-- Scans a container for requested classes; gives the keys that were written, in order. With
`related`, also writes their supertypes and subtypes in the container that are not cached. -/
def scanClasses (setup : Setup) (container : ClasspathEntry) (requested : List String)
    (related : Bool) : ExceptT AnalysisError Analysis (List String) := do
  let classes ← readContainer container
  let groups := Groups.ofClasses setup.sources classes
  let more ← ExceptT.lift <|
    if related then uncachedKeys setup groups (relatedNames classes requested) else pure []
  let keys := (Std.ExtTreeSet.ofList (requested.map Cache.key ++ more)).toList
  let found := keys.filterMap fun key => (groups[key]?).map (key, ·)
  write setup found
  return found.map (·.1)

end Analysis

end JvmThrows
