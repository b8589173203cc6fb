import JvmThrows.ClassFile.Basic
import JvmThrows.Classpath.Entry
import JvmThrows.Text.Blank
import Std.Data.ExtTreeMap

/-!
# Classes in archives

Which entries of an archive hold classes. A jar whose manifest says so is a multi-release jar: it
may hold further definitions below `META-INF/versions/<n>/`. A definition outside counts before all
of these, and of these the one with the highest number.
-/

namespace JvmThrows.Archive

open Text

/-- Classes that only carry annotations of packages and modules. -/
def isDescriptive (name : String) : Bool :=
  name == "module-info" || name == "package-info" ||
    (dropTail? "/package-info".toList name.toList).isSome

/-- A class worth keeping, if the bytes are a class file. -/
def class? (bytes : Bytes) : Option ClassFile :=
  match ClassFile.ofBytes bytes with
  | .ok c => if isDescriptive c.name then none else some c
  | .error _ => none

def isClassName (name : List Char) : Bool := (dropTail? ".class".toList name).isSome

/-- The classes in the entries that `select?` picks by their names, each with what it gives. An
archive with an entry that cannot be opened cannot be read, and neither can one with a picked entry
that is damaged. -/
def pick {β : Type} (select? : List Char → Option β) :
    List ArchiveEntry → Except ContainerError (List (β × ClassFile))
  | [] => .ok []
  | e :: rest =>
    match e.data, select? e.name.toList with
    | .sealed, _ => .error .notArchive
    | .damaged cause, some _ => .error (.file cause)
    | .bytes data, some b =>
      match class? data with
      | some c => (pick select? rest).map ((b, c) :: ·)
      | none => pick select? rest
    | _, none => pick select? rest

/-- The classes of a module archive are below `classes/`. -/
def isModuleClass? (name : List Char) : Option Unit :=
  if isClassName name && (dropHead? "classes/".toList name).isSome then some () else none

/-- The classes of a module archive. -/
def moduleClasses (entries : List ArchiveEntry) : Except ContainerError (List ClassFile) :=
  (pick isModuleClass? entries).map fun found => found.map (·.2)

/-- What a line of a manifest says of further definitions, if it speaks of them. -/
def versionsValue? (line : List Char) : Option (List Char) :=
  match cutFirst ':' line with
  | some (name, value) =>
    if sameIgnoringCase (String.ofList (trim name)) "Multi-Release" then some (trim value) else none
  | none => none

/-- Whether a manifest says that there are further definitions. The first line that speaks of it
decides. -/
def manifestAllowsVersions (manifest : List Char) : Bool :=
  match (pieces '\n' manifest).filterMap versionsValue? with
  | value :: _ => sameIgnoringCase (String.ofList value) "true"
  | [] => false

def manifestName : String := "META-INF/MANIFEST.MF"

/-- Of several manifests the last counts. -/
def isMultiRelease (entries : List ArchiveEntry) : Bool :=
  match (entries.filter (·.name == manifestName)).getLast? with
  | none => false
  | some ⟨_, .bytes data⟩ =>
    match String.fromUTF8? ⟨data.toArray⟩ with
    | some manifest => manifestAllowsVersions manifest.toList
    | none => false
  | some _ => false

/-- A number below `2 ^ 32` in decimal digits. -/
def decimal? (digits : List Char) : Option Nat :=
  if digits.isEmpty || !digits.all Char.isDigit then none
  else
    let n := digits.foldl (fun n c => n * 10 + (c.toNat - '0'.toNat)) 0
    if n < 4294967296 then some n else none

/-- A number, perhaps after a plus sign. -/
def versionNumber? : List Char → Option Nat
  | '+' :: digits => decimal? digits
  | digits => decimal? digits

/-- The version for which an entry defines a class: 0 for the definition that always counts. Nothing
if the entry is not to be read. -/
def versionOf? (multiRelease : Bool) (name : List Char) : Option Nat :=
  if !isClassName name then none
  else
    match dropHead? "META-INF/versions/".toList name with
    | some rest =>
      if multiRelease then (cutFirst '/' rest).bind (versionNumber? ·.1) else none
    | none => if (dropHead? "META-INF/".toList name).isSome then none else some 0

/-- A definition and the version it is for. -/
structure Release where
  version : Nat
  definition : ClassFile

/-- Whether a later entry takes the place of an earlier one. -/
def Release.replaces (new old : Release) : Bool :=
  old.version != 0 && (new.version == 0 || old.version < new.version)

/-- Adds a definition to those found so far. -/
def addRelease (found : Std.ExtTreeMap String Release) (new : Release) :
    Std.ExtTreeMap String Release :=
  match found[new.definition.name]? with
  | some old => if new.replaces old then found.insert new.definition.name new else found
  | none => found.insert new.definition.name new

/-- The definitions in the entries that are to be read. -/
def releases (entries : List ArchiveEntry) : Except ContainerError (List Release) :=
  (pick (versionOf? (isMultiRelease entries)) entries).map fun found =>
    found.map fun (version, definition) => ⟨version, definition⟩

/-- The classes of a jar, one of each name, in the order of names. -/
def jarClasses (entries : List ArchiveEntry) : Except ContainerError (List ClassFile) :=
  (releases entries).map fun found => (found.foldl addRelease ∅).toList.map (·.2.definition)

end JvmThrows.Archive
