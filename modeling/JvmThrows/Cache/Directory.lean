import JvmThrows.Cache.Store
import JvmThrows.FileTree.Change

/-!
# A store in a directory

One document per key below a root. Documents are replaced as a whole. What stands in the place of a
document and cannot be used (a link, a file that is too large or does not read) is removed and
counts as missing.
-/

namespace JvmThrows.Cache.Directory

/-- Larger documents are not read. -/
def maxDocumentSize : Nat := 16 * 1024 * 1024

/-- Reports the fault of a file operation. -/
def attempt {α : Type} (run : Files α) : Attempt FileTree α := fun tree =>
  match run tree with
  | (.ok a, tree) => (.ok a, tree)
  | (.error e, tree) => (.error (.file e), tree)

/-- Removes a file if that is possible. -/
def discard (path : Path) : StateM FileTree Unit := fun tree =>
  ((), (FileTree.removeFile path tree).2)

/-- The content of the file in the place of a document. -/
def readDocument (path : Path) : StateM FileTree (Option Content) := fun tree =>
  match tree.find false path with
  | .error _ => (none, tree)
  | .ok (.file content) =>
    if maxDocumentSize < content.size then (none, (discard path tree).2) else (some content, tree)
  | .ok _ => (none, (discard path tree).2)

/-- Reads documents; no text of one ends in a zero byte. -/
def reading {α : Type} (read : Bytes → Except CacheError α) :
    Content → Except CacheError α
  | .plain data 0 => read data
  | .plain _ _ => .error .malformed
  | content => read content.bytes

/-- What is read from a document; the document is discarded if it does not read. -/
def readAs {α : Type} (read : Bytes → Except CacheError α) (path : Path) :
    StateM FileTree (Option α) := do
  match ← readDocument path with
  | none => return none
  | some content =>
    match reading read content with
    | .ok a => return some a
    | .error _ => do
      discard path
      return none

def get (root : Path) (c : String) : StateM FileTree (Option Entries) := do
  return (← readAs Document.ofBytes (documentPath root c)).map (·.entries)

def contains (root : Path) (c : String) : StateM FileTree Bool := do
  return (← readAs Document.checkHeader (documentPath root c)).isSome

def put (root : Path) (c : String) (entries : Entries) : Attempt FileTree Unit :=
  let document := Document.ofEntries (key c) entries
  attempt (FileTree.replaceFile (documentPath root (key c)) document.render.toUTF8.toList)

/-- The file that is locked while entries are added. -/
def lockPath (root : Path) : Path := root.join ".lock"

/-- Makes the file to lock. -/
def lock (root : Path) : Attempt FileTree Unit := attempt do
  match (lockPath root).parent? with
  | some parent => FileTree.makeDirectories parent
  | none => pure ()
  FileTree.openFile (lockPath root)

def merge (root : Path) (c : String) (entries : Entries) : Attempt FileTree Unit := do
  lock root
  let old ← get root c
  put root c ((old.getD ∅).union entries)

def remove (root : Path) (c : String) : Attempt FileTree Unit := attempt do
  tryCatch (FileTree.removeFile (documentPath root c)) fun e =>
    if e = .notFound then pure () else throw e

/-- Makes the root directory. -/
def create (root : Path) : Attempt FileTree Unit := attempt (FileTree.makeDirectories root)

def store (root : Path) : Store FileTree where
  get := get root
  contains := contains root
  put := put root
  merge := merge root
  remove := remove root

end JvmThrows.Cache.Directory
