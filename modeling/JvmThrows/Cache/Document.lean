import JvmThrows.Entries
import JvmThrows.FileTree.Basic
import JvmThrows.Json.Reader
import JvmThrows.Json.Record
import JvmThrows.Json.Writer

/-!
# Cache documents

The written form of the results for one key. A method names its class only if that is not the key
itself. Documents of another schema version are refused.
-/

namespace JvmThrows

inductive CacheError where
  | missingHome
  | file (cause : FileError)
  | malformed
  | incompatibleVersion (found : Nat)
  deriving DecidableEq, Repr

namespace Cache

open Json

/-- The version of the documents that are written and read. -/
def schemaVersion : Nat := 1

structure MethodRecord where
  /-- The class of the method, if it is not the key of the document. -/
  owner : Option String
  name : String
  descriptor : String
  exceptions : List String
  deriving DecidableEq, Repr

namespace MethodRecord

def toJson (r : MethodRecord) : Json :=
  .object ((r.owner.map fun owner => ("class", Json.string owner)).toList ++
    [("name", .string r.name), ("descriptor", .string r.descriptor),
      ("exceptions", .strings r.exceptions)])

def ofJson? (json : Json) : Option MethodRecord := do
  match ← record? ["class", "name", "descriptor", "exceptions"] json with
  | [owner, name, descriptor, exceptions] =>
    return ⟨← optional? text? owner, ← required? text? name, ← required? text? descriptor,
      ← default? [] (list? text?) exceptions⟩
  | _ => none

/-- The method, in a document with the given key. -/
def method (key : String) (r : MethodRecord) : MethodId :=
  ⟨r.owner.getD key, r.name, r.descriptor⟩

end MethodRecord

structure Document where
  version : Nat
  key : String
  methods : List MethodRecord
  deriving DecidableEq, Repr

namespace Document

def ofEntries (key : String) (entries : Entries) : Document where
  version := schemaVersion
  key
  methods := entries.toList.map fun (m, exceptions) =>
    { owner := if m.owner = key then none else some m.owner
      name := m.name
      descriptor := m.descriptor
      exceptions := exceptions.toList }

/-- The exceptions of each method; those of a repeated method add up. -/
def entries (d : Document) : Entries :=
  d.methods.foldl (fun es r => es.add (r.method d.key) (.ofList r.exceptions)) ∅

def toJson (d : Document) : Json :=
  .object [("schema_version", .ofNat d.version), ("class", .string d.key),
    ("methods", .array (d.methods.map (·.toJson)))]

/-- The text of a document, with a line break at the end. -/
def render (d : Document) : String := d.toJson.pretty ++ "\n"

/-- Numbers of versions are below this. -/
def versionBound : Nat := 4294967296

def ofJson? (json : Json) : Option Document := do
  match ← record? ["schema_version", "class", "methods"] json with
  | [version, key, methods] =>
    return ⟨← required? (natBelow? versionBound) version, ← required? text? key,
      ← default? [] (list? MethodRecord.ofJson?) methods⟩
  | _ => none

def checkVersion (version : Nat) : Except CacheError Unit :=
  if version = schemaVersion then .ok () else .error (.incompatibleVersion version)

def ofBytes (bytes : Bytes) : Except CacheError Document :=
  match (Json.parseBytes? bytes).bind ofJson? with
  | none => .error .malformed
  | some d => (checkVersion d.version).map fun _ => d

/-- The version of a document, which also has to name its class, in any way. -/
def headerVersion? (json : Json) : Option Nat := do
  match ← record? ["schema_version", "class"] json with
  | [version, key] =>
    let _ ← key
    required? (natBelow? versionBound) version
  | _ => none

/-- Checks syntax and version only. -/
def checkHeader (bytes : Bytes) : Except CacheError Unit :=
  match (Json.parseBytes? bytes).bind headerVersion? with
  | none => .error .malformed
  | some version => checkVersion version

end Document

end Cache

/-- The messages of errors, and of the causes below them. -/
def CacheError.messages : CacheError → List String
  | missingHome => ["failed to determine home directory for default cache path"]
  | file cause => ["io error: " ++ cause.message, cause.message]
  | malformed => ["json error"]
  | incompatibleVersion found =>
    [s!"incompatible cache schema version: expected {Cache.schemaVersion}, found {found}"]

def CacheError.message (e : CacheError) : String := e.messages.headD ""

end JvmThrows
