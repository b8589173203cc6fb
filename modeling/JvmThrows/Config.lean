import JvmThrows.Cache.Document
import JvmThrows.Extraction.Escape
import JvmThrows.Toml.Document

/-!
# Configuration

Settings come from a document with sections `cache`, `analysis` and `logging`. Every setting has a
default, and a name that is no setting is refused. A section may also be written as a list of its
settings in order.
-/

namespace JvmThrows

structure Logging where
  /-- A level, or a list of directives. -/
  level : String := "warn"
  json : Bool := false
  stderr : Bool := true
  file : Option Path := none
  deriving DecidableEq, Repr

structure Config where
  cacheRoot : Option Path := none
  sources : Sources := {}
  logging : Logging := {}
  deriving DecidableEq, Repr

inductive ConfigError where
  | unreadable (path : Path) (cause : FileError)
  /-- The document is not well formed. -/
  | syntaxError
  | unknownField (name : String) (known : List String)
  | invalidType (found expected : String)
  deriving DecidableEq, Repr

namespace ConfigError

def inTicks (name : String) : String := "`" ++ name ++ "`"

/-- The known names in a message. -/
def expectation : List String → String
  | [] => "there are no fields"
  | [a] => "expected " ++ inTicks a
  | [a, b] => "expected " ++ inTicks a ++ " or " ++ inTicks b
  | names => "expected one of " ++ ", ".intercalate (names.map inTicks)

/-- What is wrong with a document. -/
def detail : ConfigError → String
  | unknownField name known => "unknown field " ++ inTicks name ++ ", " ++ expectation known
  | invalidType found expected => "invalid type: " ++ found ++ ", expected " ++ expected
  | _ => "invalid document"

/-- The message of an error and those of the causes below it. -/
def messages : ConfigError → List String
  | unreadable path cause =>
    ["failed to read config file " ++ path.text ++ ": " ++ cause.message, cause.message]
  | e => ["failed to parse toml config: " ++ e.detail]

def message (e : ConfigError) : String := e.messages.headD ""

end ConfigError

/-- A setting: its name, and how its value changes the settings. -/
structure Setting (α : Type) where
  name : String
  set : Toml → α → Except ConfigError α

namespace Setting

variable {α : Type}

def text (name : String) (set : String → α → α) : Setting α :=
  ⟨name, fun value settings =>
    match value with
    | .text s => .ok (set s settings)
    | other => .error (.invalidType other.describe "a string")⟩

def path (name : String) (set : Path → α → α) : Setting α :=
  ⟨name, fun value settings =>
    match value with
    | .text s => .ok (set ⟨s⟩ settings)
    | other => .error (.invalidType other.describe "path string")⟩

def flag (name : String) (set : Bool → α → α) : Setting α :=
  ⟨name, fun value settings =>
    match value with
    | .bool b => .ok (set b settings)
    | other => .error (.invalidType other.describe "a boolean")⟩

/-- Takes over named values in order. -/
def setNamed (settings : List (Setting α)) : List (String × Toml) → α → Except ConfigError α
  | [], a => .ok a
  | (name, value) :: rest, a => do
    match settings.find? (·.name == name) with
    | some setting => setNamed settings rest (← setting.set value a)
    | none => throw (.unknownField name (settings.map (·.name)))

/-- Takes over values in the order of the settings; further values do not count. -/
def setListed : List (Setting α) → List Toml → α → Except ConfigError α
  | setting :: settings, value :: values, a => do setListed settings values (← setting.set value a)
  | _, _, a => .ok a

/-- The name under which a date or time holds its text. -/
def momentField : String := "$__toml_private_datetime"

/-- Takes over a section, of the given kind in messages. -/
def setSection (kind : String) (settings : List (Setting α)) (value : Toml) (a : α) :
    Except ConfigError α :=
  match value with
  | .table _ fields => setNamed settings fields a
  | .array items => setListed settings items a
  | .tables items => setListed settings (items.map (.table .header)) a
  | .moment => .error (.unknownField momentField (settings.map (·.name)))
  | other => .error (.invalidType other.describe ("struct " ++ kind))

end Setting

namespace Config

open Setting

def cacheSettings : List (Setting Config) :=
  [.path "root" fun path c => { c with cacheRoot := some path }]

def analysisSettings : List (Setting Config) :=
  [.flag "declared" fun b c => { c with sources := { c.sources with declared := b } },
    .flag "thrown" fun b c => { c with sources := { c.sources with thrown := b } },
    .flag "follow_invocations" fun b c => { c with sources := { c.sources with calls := b } }]

def loggingSettings : List (Setting Config) :=
  [.text "level" fun s c => { c with logging := { c.logging with level := s } },
    .flag "json" fun b c => { c with logging := { c.logging with json := b } },
    .flag "stderr" fun b c => { c with logging := { c.logging with stderr := b } },
    .path "file" fun path c => { c with logging := { c.logging with file := some path } }]

def sections : List (Setting Config) :=
  [⟨"cache", setSection "CacheSection" cacheSettings⟩,
    ⟨"analysis", setSection "AnalysisConfig" analysisSettings⟩,
    ⟨"logging", setSection "LoggingConfig" loggingSettings⟩]

/-- The settings of a document. The first fault in the order of the document counts. -/
def parse (document : String) : Except ConfigError Config :=
  match Toml.parse? document with
  | none => .error .syntaxError
  | some fields => setNamed sections fields {}

def read (tree : FileTree) (path : Path) : Except ConfigError Config :=
  match tree.readText path with
  | .error cause => .error (.unreadable path cause)
  | .ok document => parse document

end Config

/-- The environment variables that count. -/
structure Environment where
  configPath : Option String := none
  cacheDirectory : Option String := none
  home : Option String := none
  profile : Option String := none
  logDirectives : Option String := none
  deriving DecidableEq, Repr

namespace Config

/-- Where the cache is to be; nothing for the default place. -/
def effectiveCacheRoot (env : Environment) (c : Config) : Option Path :=
  match env.cacheDirectory with
  | some dir => if dir.isEmpty then c.cacheRoot else some ⟨dir⟩
  | none => c.cacheRoot

/-- The names under which a configuration is looked for. -/
def fileNames : List String := ["jem.toml", ".jem.toml"]

/-- The configuration file for a directory: the one the environment names, or one of the usual
names. -/
def discover (tree : FileTree) (env : Environment) (dir : Path) : Option Path :=
  match env.configPath with
  | some path => some (dir.join path)
  | none => (fileNames.map dir.join).find? tree.isFile

/-- The configuration for a directory, and the file it comes from; the defaults if there is none. -/
def load (tree : FileTree) (env : Environment) (dir : Path) :
    Except ConfigError (Config × Option Path) :=
  match discover tree env dir with
  | none => .ok ({}, none)
  | some path => (read tree path).map (·, some path)

end Config

namespace Cache

/-- The directory of the cache in the home directory. -/
def directoryName : String := ".JEMPluginCache"

def defaultRoot (env : Environment) : Except CacheError Path :=
  match env.home.or env.profile with
  | some home => .ok ((Path.mk home).join directoryName)
  | none => .error .missingHome

/-- The root that the environment gives. -/
def environmentRoot (env : Environment) : Except CacheError Path :=
  match env.cacheDirectory with
  | some dir => .ok ⟨dir⟩
  | none => defaultRoot env

end Cache

end JvmThrows
