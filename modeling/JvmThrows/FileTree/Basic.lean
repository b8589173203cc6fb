import JvmThrows.Path
import JvmThrows.ClassFile.Words
import Std.Data.ExtTreeMap

/-!
# File trees

A tree of directories, files and symbolic links, addressed by location: the names on the way from
the root. `locate` finds where a path leads, through links, and reports why it leads nowhere;
`entry` finds what the last name of a path stands for itself.
-/

namespace JvmThrows

inductive FileError where
  | notFound | busy | alreadyExists | notDirectory | isDirectory | nameTooLong | linkLoop
  /-- The path holds a character that no path may hold. -/
  | invalidPath
  | notText
  /-- Packed data cannot be expanded. -/
  | corrupt
  /-- Data does not fit its checksum. -/
  | wrongChecksum
  /-- A directory could not be made with all directories above it. -/
  | incomplete
  | noParent
  | noFileName
  /-- A class directory was expected at the path. -/
  | noClassDirectory (path : Path)
  deriving DecidableEq, Repr

def FileError.message : FileError → String
  | notFound => "No such file or directory (os error 2)"
  | busy => "Device or resource busy (os error 16)"
  | alreadyExists => "File exists (os error 17)"
  | notDirectory => "Not a directory (os error 20)"
  | isDirectory => "Is a directory (os error 21)"
  | nameTooLong => "File name too long (os error 36)"
  | linkLoop => "Too many levels of symbolic links (os error 40)"
  | invalidPath => "file name contained an unexpected NUL byte"
  | notText => "stream did not contain valid UTF-8"
  | corrupt => "corrupt deflate stream"
  | wrongChecksum => "Invalid checksum"
  | incomplete => "failed to create whole tree"
  | noParent => "path has no parent"
  | noFileName => "destination path has no file name"
  | noClassDirectory path => path.text ++ " is not a directory"

/-- What an entry of an archive holds. -/
inductive EntryData where
  | bytes (data : Bytes)
  /-- It cannot be opened: it is encrypted, packed in an unknown way, or not where it should be. -/
  | sealed
  /-- It can be opened, but not be read. -/
  | damaged (cause : FileError)
  deriving DecidableEq, Repr

structure ArchiveEntry where
  name : String
  data : EntryData
  deriving DecidableEq, Repr

/-- An upper bound of the room that an entry takes: data, a header before it, a record in the
directory, and the name in both. -/
def ArchiveEntry.room (e : ArchiveEntry) : Nat :=
  30 + 46 + 2 * e.name.utf8ByteSize +
    match e.data with
    | .bytes data => data.length
    | _ => 0

/-- What a file holds. -/
inductive Content where
  /-- Bytes, and then a number of zero bytes. -/
  | plain (data : Bytes) (zeros : Nat)
  /-- A well-formed archive, by its entries in order, and then a number of zero bytes. -/
  | archive (entries : List ArchiveEntry) (zeros : Nat)
  deriving DecidableEq, Repr

namespace Content

def ofBytes (data : Bytes) : Content := .plain data 0

def ofEntries (entries : List ArchiveEntry) : Content := .archive entries 0

/-- What archives start with. The bytes after it are of no concern. -/
def signature : Bytes := [0x50, 0x4b, 0x03, 0x04]

/-- The length of the record at the end of archives. -/
def endLength : Nat := 22

def bytes : Content → Bytes
  | plain data zeros => data ++ List.replicate zeros 0
  | archive _ _ => signature

def size : Content → Nat
  | plain data zeros => data.length + zeros
  | archive entries zeros => (entries.map (·.room)).foldr (· + ·) 0 + endLength + zeros

/-- The text that a file holds; an archive holds none. -/
def text? : Content → Option String
  | archive _ _ => none
  | c => String.fromUTF8? ⟨c.bytes.toArray⟩

/-- Cut off or filled up with zeros to a length. -/
def resize (length : Nat) : Content → Content
  | plain data _ =>
    if length ≤ data.length then plain (data.take length) 0
    else plain data (length - data.length)
  | archive entries _ =>
    let full := (ofEntries entries).size
    if length < full then plain (signature.take length) (length - signature.length)
    else archive entries (length - full)

end Content

inductive Node where
  | file (content : Content)
  | directory
  | link (target : Path)
  deriving DecidableEq, Repr

/-- The names on the way from the root. -/
abbrev Location := List String

structure FileTree where
  /-- All nodes but the root, which is a directory. -/
  nodes : Std.ExtTreeMap Location Node
  /-- Where relative paths start. -/
  working : Location

/-- What is at the end of a path. -/
structure Place where
  location : Location
  /-- Nothing, if only the last name of the path is missing. -/
  node : Option Node
  /-- Whether the path, or the link that it leads to, ends in a slash and so means a directory. -/
  slash : Bool

namespace FileTree

/-- Whether a directory may hold something under a name. -/
def isName (name : String) : Bool :=
  !name.isEmpty && name != "." && name != ".." && !name.toList.contains '/'

/-- The names of a path in the order in which they are looked up. -/
def namesOf (path : Path) : List String :=
  ((Text.pieces '/' path.text.toList).filter (!·.isEmpty)).map String.ofList

/-- The longest name and the longest path, in bytes. -/
def maxName : Nat := 255
def maxPath : Nat := 4095

/-- How many links one look-up passes. -/
def maxLinks : Nat := 40

/-- Whether a path ends in a slash. -/
def endsInSlash (path : Path) : Bool := path.text.toList.getLast? == some '/'

/-- Where names lead from a directory. A link is followed if more names come, if `follow` says so,
or if a directory is meant. -/
def walk (tree : FileTree) (follow slash : Bool) (links : Nat) (here : Location)
    (names : List String) : Except FileError Place :=
  match names with
  | [] => .ok ⟨here, some .directory, slash⟩
  | name :: rest =>
    if name = "." then tree.walk follow slash links here rest
    else if name = ".." then tree.walk follow slash links here.dropLast rest
    else if maxName < name.utf8ByteSize then .error .nameTooLong
    else
      let location := here ++ [name]
      match tree.nodes[location]? with
      | none => if rest.isEmpty then .ok ⟨location, none, slash⟩ else .error .notFound
      | some .directory => tree.walk follow slash links location rest
      | some (.file content) =>
        if rest.isEmpty then .ok ⟨location, some (.file content), slash⟩ else .error .notDirectory
      | some (.link target) =>
        if rest.isEmpty && !follow && !slash then .ok ⟨location, some (.link target), slash⟩
        else
          match links with
          | 0 => .error .linkLoop
          | links + 1 =>
            tree.walk follow (slash || (rest.isEmpty && endsInSlash target)) links
              (if target.isAbsolute then [] else here) (namesOf target ++ rest)
termination_by (links, names.length)

/-- What no path may be. -/
def pathFault? (path : Path) : Option FileError :=
  if path.text.toList.contains '\x00' then some .invalidPath
  else if path.text.isEmpty then some .notFound
  else if maxPath < path.text.utf8ByteSize then some .nameTooLong
  else none

/-- Where the names of a path start. Of the way to the working directory only what are names
counts. -/
def startOf (tree : FileTree) (path : Path) : Location :=
  if path.isAbsolute then [] else tree.working.filter isName

/-- The place that a path leads to, which may be a file though a directory is meant. -/
def locateAny (tree : FileTree) (follow : Bool) (path : Path) : Except FileError Place :=
  match pathFault? path with
  | some e => .error e
  | none => tree.walk follow (endsInSlash path) maxLinks (tree.startOf path) (namesOf path)

/-- The place that a path leads to. -/
def locate (tree : FileTree) (follow : Bool) (path : Path) : Except FileError Place :=
  match tree.locateAny follow path with
  | .ok ⟨_, some (.file _), true⟩ => .error .notDirectory
  | place => place

/-- The directory that names lead to. -/
def directoryAt (tree : FileTree) (start : Location) (names : List String) :
    Except FileError Location :=
  match tree.walk true true maxLinks start names with
  | .error e => .error e
  | .ok ⟨location, some .directory, _⟩ => .ok location
  | .ok ⟨_, none, _⟩ => .error .notFound
  | .ok _ => .error .notDirectory

/-- What the last name of a path stands for; nothing if that is a directory on the way, as with
`..`. A link is not followed, also in front of a slash. -/
def entry (tree : FileTree) (path : Path) : Except FileError (Option Place) :=
  match pathFault? path with
  | some e => .error e
  | none =>
    let names := namesOf path
    match tree.directoryAt (tree.startOf path) names.dropLast, names.getLast? with
    | .error e, _ => .error e
    | .ok _, none => .ok none
    | .ok here, some name =>
      if name = "." || name = ".." then .ok none
      else if maxName < name.utf8ByteSize then .error .nameTooLong
      else
        let location := here ++ [name]
        .ok (some ⟨location, tree.nodes[location]?, endsInSlash path⟩)

/-- The node at the end of a path. -/
def find (tree : FileTree) (follow : Bool) (path : Path) : Except FileError Node :=
  match tree.locate follow path with
  | .error e => .error e
  | .ok place =>
    match place.node with
    | some node => .ok node
    | none => .error .notFound

def isDirectory (tree : FileTree) (path : Path) : Bool :=
  match tree.find true path with
  | .ok .directory => true
  | _ => false

def isFile (tree : FileTree) (path : Path) : Bool :=
  match tree.find true path with
  | .ok (.file _) => true
  | _ => false

/-- What the file at a path holds. -/
def read (tree : FileTree) (path : Path) : Except FileError Content :=
  match tree.find true path with
  | .ok (.file content) => .ok content
  | .ok _ => .error .isDirectory
  | .error e => .error e

def readText (tree : FileTree) (path : Path) : Except FileError String :=
  match tree.read path with
  | .error e => .error e
  | .ok content =>
    match content.text? with
    | some text => .ok text
    | none => .error .notText

def pathOf (location : Location) : Path := ⟨"/" ++ "/".intercalate location⟩

/-- The absolute path without links of what a path leads to. -/
def canonical (tree : FileTree) (path : Path) : Except FileError Path :=
  match tree.locate true path with
  | .error e => .error e
  | .ok place => if place.node.isSome then .ok (pathOf place.location) else .error .notFound

/-- Everything below a location, by the way from there. -/
def below (tree : FileTree) (location : Location) : List (Location × Node) :=
  tree.nodes.toList.filterMap fun (l, node) =>
    match location.isPrefixOf? l with
    | some (name :: rest) => some (name :: rest, node)
    | _ => none

/-- The paths of everything below a directory, in order; those of directories end in a slash. -/
def listing (tree : FileTree) (path : Path) : List String :=
  match tree.locate true path with
  | .ok ⟨location, some .directory, _⟩ =>
    let texts := (tree.below location).map fun (l, node) =>
      "/".intercalate l ++ (if node = .directory then "/" else "")
    texts.mergeSort (· ≤ ·)
  | _ => []

end FileTree

end JvmThrows
