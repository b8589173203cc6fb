import JvmThrows.FileTree.Basic

/-!
# Changing file trees

Operations that change a tree. One that fails leaves what its earlier steps have done: a directory
that was made stays.
-/

namespace JvmThrows

/-- Computes with a file tree and may fail. The tree is kept on failure. -/
abbrev Files := ExceptT FileError (StateM FileTree)

namespace FileTree

/-- Changes nothing. -/
def ask {α : Type} (question : FileTree → Except FileError α) : Files α := fun tree =>
  (question tree, tree)

def setNode (location : Location) (node : Node) : Files Unit :=
  modify fun tree => { tree with nodes := tree.nodes.insert location node }

def eraseNode (location : Location) : Files Unit :=
  modify fun tree => { tree with nodes := tree.nodes.erase location }

/-- What the last name of a path stands for, or an error if it leads back to a directory. -/
def entryOr (e : FileError) (path : Path) : Files Place := do
  match ← ask (·.entry path) with
  | some place => pure place
  | none => throw e

/-- Makes one directory. -/
def makeDirectory (path : Path) : Files Unit := do
  let place ← entryOr .alreadyExists path
  if place.node.isSome then throw .alreadyExists
  setNode place.location .directory

/-- Makes one directory, unless there is one. -/
def ensureDirectory (path : Path) : Files Unit := do
  try makeDirectory path
  catch e => if (← get).isDirectory path then pure () else throw e

/-- Makes a directory and at most `n` directories above it. -/
def makeDirectoriesWithin : Nat → Path → Files Unit
  | 0, _ => throw .incomplete
  | n + 1, path =>
    if path.text.isEmpty then pure ()
    else
      tryCatch (makeDirectory path) fun e =>
        if e = .notFound then
          match path.parent? with
          | none => throw .incomplete
          | some parent => do
            makeDirectoriesWithin n parent
            ensureDirectory path
        else ensureDirectory path

/-- Makes a directory and the directories above it that are missing. -/
def makeDirectories (path : Path) : Files Unit :=
  makeDirectoriesWithin (path.components.length + 1) path

/-- The place of a file that is to be written. -/
def writable (path : Path) : Files Place := do
  let place ← ask (·.locateAny true path)
  if place.slash || place.node = some .directory then throw .isDirectory
  return place

/-- Writes a file, a new one or in place of the old content. -/
def writeFile (path : Path) (content : Content) : Files Unit := do
  setNode (← writable path).location (.file content)

/-- Opens a file for writing at its end; makes an empty one if there is none. -/
def openFile (path : Path) : Files Unit := do
  let place ← writable path
  if place.node.isNone then setNode place.location (.file (.ofBytes []))

/-- Writes a file that must not exist. -/
def createFile (path : Path) (content : Content) : Files Unit := do
  let place ← entryOr .alreadyExists path
  if place.slash then throw .isDirectory
  if place.node.isSome then throw .alreadyExists
  setNode place.location (.file content)

/-- Removes a file or link. -/
def removeFile (path : Path) : Files Unit := do
  let place ← entryOr .isDirectory path
  match place.node with
  | none => throw .notFound
  | some .directory => throw .isDirectory
  | some _ => if place.slash then throw .notDirectory else eraseNode place.location

/-- Moves a file or link, in place of a file or link if there is one. -/
def moveFile (source target : Path) : Files Unit := do
  let s ← entryOr .busy source
  let t ← entryOr .busy target
  match s.node with
  | none => throw .notFound
  | some .directory => throw .isDirectory
  | some node =>
    if s.slash || t.slash then throw .notDirectory
    if t.node = some .directory then throw .isDirectory
    eraseNode s.location
    setNode t.location node

def makeLink (path target : Path) : Files Unit := do
  let place ← entryOr .alreadyExists path
  if place.node.isSome then throw .alreadyExists
  if place.slash then throw .notFound
  setNode place.location (.link target)

/-- The name of a draft of a file: it tells the process that writes, and a number. There is one
process. -/
def draftName (name : String) (n : Nat) : String := name ++ ".tmp.1." ++ toString n

/-- A name next to a file that is not in use. -/
def unusedName (tree : FileTree) (parent : Path) (name : String) : String :=
  let candidates := (List.range (tree.nodes.size + 1)).map (draftName name)
  (candidates.find? fun candidate =>
    match tree.locate false (parent.join candidate) with
    | .ok place => place.node.isNone
    | .error _ => true).getD name

/-- Puts bytes at a path through a file next to it, so that no reader meets a part of them.
Directories are made as needed. -/
def replaceFile (path : Path) (bytes : Bytes) : Files Unit := do
  let parent ← match path.parent? with
    | none => throw .noParent
    | some parent => pure (if parent.text.isEmpty then Path.mk "." else parent)
  makeDirectories parent
  let name ← match path.fileName? with
    | none => throw .noFileName
    | some name => pure name
  let draft := parent.join (unusedName (← get) parent name)
  createFile draft (.ofBytes bytes)
  try moveFile draft path
  catch e => do
    removeFile draft
    throw e

end FileTree

end JvmThrows
