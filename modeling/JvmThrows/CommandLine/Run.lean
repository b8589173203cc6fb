import JvmThrows.Cache.Directory
import JvmThrows.CommandLine.Arguments
import JvmThrows.CommandLine.Report
import JvmThrows.Config

/-!
# Running commands

A run reads arguments, environment and files, may change files, and ends with an exit code and
what it prints. The configuration is read first, then the cache is opened, then the command runs;
the first failure ends the run.
-/

namespace JvmThrows

inductive CommandError where
  | config (cause : ConfigError)
  | noCache (cause : CacheError)
  | cacheUnavailable (root : Path) (cause : CacheError)
  | unreadable (path : Path) (cause : FileError)
  | invalidManifest (path : Path)
  | invalidMethod (text : String)
  | analysis (cause : AnalysisError)
  | notRemoved (cause : CacheError)
  deriving DecidableEq, Repr

namespace CommandError

/-- The message of an error and those of the causes below it. -/
def messages : CommandError → List String
  | config cause => cause.messages
  | noCache cause => cause.messages
  | cacheUnavailable root cause => ("failed to open cache at " ++ root.text) :: cause.messages
  | unreadable path cause => ["failed to read " ++ path.text, cause.message]
  | invalidManifest path => ["invalid call manifest " ++ path.text, "malformed document"]
  | invalidMethod text => [MethodId.invalidMessage text]
  | analysis cause => cause.messages
  | notRemoved cause => cause.messages

/-- One line for all messages. -/
def line (e : CommandError) : String := ": ".intercalate e.messages ++ "\n"

end CommandError

/-- How a run ends. -/
structure Outcome where
  code : Nat := 0
  stdout : String := ""
  stderr : String := ""
  deriving DecidableEq, Repr

/-- Computes with files and may fail with a command's error. -/
abbrev Running := ExceptT CommandError (StateM FileTree)

namespace Running

/-- Passes an error on under another name. -/
def ofExcept {ε α : Type} (wrap : ε → CommandError) : Except ε α → Running α
  | .ok a => pure a
  | .error e => throw (wrap e)

def ofAttempt {α : Type} (wrap : CacheError → CommandError) (run : Attempt FileTree α) :
    Running α := do
  ofExcept wrap (← ExceptT.lift run.run)

/-- Runs an analysis in a session of its own. -/
def ofAnalysis {α : Type} (run : Analysis α) : Running α :=
  ExceptT.lift fun tree =>
    let (a, session) := run { world := { files := tree } }
    (a, session.world.files)

end Running

namespace Invocation

open Running

/-- The configuration of a run. -/
def configuration (env : Environment) (i : Invocation) : Running Config := do
  let tree ← get
  match i.config with
  | some path => ofExcept .config (Config.read tree path)
  | none => ofExcept .config ((Config.load tree env (FileTree.pathOf tree.working)).map (·.1))

/-- Makes the log file if there is to be one; it is done without if that fails. -/
def openLog (logging : Logging) : StateM FileTree Unit := fun tree =>
  match logging.file with
  | none => ((), tree)
  | some path => ((), (FileTree.openFile path tree).2)

/-- The root of the cache: from the arguments, the environment, the configuration, or the default
place. -/
def root (env : Environment) (config : Config) (i : Invocation) : Except CacheError Path :=
  match i.cacheRoot.or (config.effectiveCacheRoot env) with
  | some path => .ok path
  | none => Cache.defaultRoot env

end Invocation

namespace CacheAction

open Running

def run (root : Path) (c : String) (json : Bool) : CacheAction → Running Outcome
  | locate =>
    return { stdout := Report.documentPath json (Cache.key c) (Cache.documentPath root c) }
  | list => do
    match ← ExceptT.lift (Cache.Directory.get root c) with
    | none => return { code := 1, stderr := c ++ ": not cached\n" }
    | some entries => return { stdout := Report.document json (.ofEntries (Cache.key c) entries) }
  | remove => do
    ofAttempt .notRemoved (Cache.Directory.remove root c)
    return { stdout := Report.removed json (Cache.documentPath root c) }

end CacheAction

namespace Command

open Running

/-- The end of every range. -/
def maxOffset : Nat := CommandLine.numberBound - 1

/-- The entries of a class path. -/
def entries (classpath : List Path) : Running (List ClasspathEntry) := do
  let tree ← get
  return classpath.map (.ofPath tree)

def run (root : Path) (sources : Sources) : Command → Running Outcome
  | analyze calls start stop classpath json => do
    let text ← ofExcept (.unreadable calls) ((← get).readText calls)
    match CallManifest.parse? text with
    | none => throw (.invalidManifest calls)
    | some manifest =>
      let classpath ← entries classpath
      let found ← ofAnalysis
        (Analysis.analyze (setup root sources) classpath manifest start (stop.getD maxOffset))
      return { stdout := Report.discoveries json found }
  | method text container classpath json => do
    match MethodId.parse? text with
    | none => throw (.invalidMethod text)
    | some m =>
      let classpath ← entries classpath
      let found ← ofAnalysis (Analysis.exceptionsFor (setup root sources) classpath m container)
      return { stdout := Report.exceptions json m found }
  | scan container json => do
    let entry := ClasspathEntry.ofPath (← get) container
    let keys ← ofAnalysis (Analysis.scan (setup root sources) entry).run
    return { stdout := Report.scanned json container (← ofExcept .analysis keys) }
  | cache action c json => action.run root c json
where
  setup (root : Path) (sources : Sources) : Setup := ⟨(Cache.Directory.store root).inFiles, sources⟩

end Command

namespace Invocation

open Running

def run (env : Environment) (i : Invocation) : Running Outcome := do
  let config ← i.configuration env
  ExceptT.lift (openLog config.logging)
  let root ← ofExcept .noCache (i.root env config)
  ofAttempt (.cacheUnavailable root) (Cache.Directory.create root)
  i.command.run root config.sources

end Invocation

namespace CommandLine

def version : String := "jem 0.1.0\n"

def usage : String := Report.ofLines
  ["Usage: jem [OPTIONS] <COMMAND>",
    "",
    "Commands:",
    "  analyze  Exceptions of every call in a call manifest, grouped by exception type",
    "  method   Exceptions of a single method",
    "  scan     Scan a jar, jmod or class directory into the cache",
    "  cache    Inspect or edit cached results",
    "",
    "Options:",
    "      --config <CONFIG>        Config file",
    "      --cache-dir <CACHE_DIR>  Cache directory",
    "  -h, --help                   Print help",
    "  -V, --version                Print version"]

/-- The exit code of runs that fail. -/
def failure : Nat := 2

/-- Runs the program. -/
def run (env : Environment) (arguments : List String) : StateM FileTree Outcome := do
  match parse arguments with
  | .error .help => return { stdout := usage }
  | .error .version => return { stdout := version }
  | .error (.misuse fault) =>
    return { code := failure, stderr := "error: " ++ fault.message ++ "\n" }
  | .ok invocation =>
    match ← (invocation.run env).run with
    | .ok outcome => return outcome
    | .error e => return { code := failure, stderr := e.line }

end CommandLine

end JvmThrows
