import JvmThrows.FileTree.Basic

/-!
# Class path entries

A class path is a list of containers: directories of class files, jar archives and module archives.
Entries are compared by kind and by the components of their paths.
-/

namespace JvmThrows

inductive ContainerKind where
  | directory | jar | jmod
  deriving DecidableEq, Repr

/-- Directories, jars, modules. -/
def ContainerKind.rank : ContainerKind → Nat
  | directory => 0
  | jar => 1
  | jmod => 2

structure ClasspathEntry where
  kind : ContainerKind
  path : Path
  deriving DecidableEq, Repr

/-- Why a container cannot be read. -/
inductive ContainerError where
  | file (cause : FileError)
  /-- The file is no archive. -/
  | notArchive
  deriving DecidableEq, Repr

/-- The message of an error and those of the causes below it. -/
def ContainerError.messages : ContainerError → List String
  | file cause => ["io error: " ++ cause.message, cause.message]
  | notArchive => ["zip error"]

namespace ClasspathEntry

instance : Ord ClasspathEntry where
  compare := compareLex (compareOn fun e => e.kind.rank) (compareOn path)

instance : Std.TransOrd ClasspathEntry :=
  inferInstanceAs (Std.TransCmp
    (compareLex (compareOn fun e : ClasspathEntry => e.kind.rank) (compareOn path)))

/-- The same container up to the spelling of the path. -/
def same (a b : ClasspathEntry) : Bool := a.kind == b.kind && a.path.same b.path

/-- Infers the kind: directories hold class files, files are jars unless they are named as
modules. -/
def ofPath (tree : FileTree) (path : Path) : ClasspathEntry :=
  if tree.isDirectory path then ⟨.directory, path⟩
  else if path.extension?.any (Text.sameIgnoringCase · "jmod") then ⟨.jmod, path⟩
  else ⟨.jar, path⟩

/-- With the canonical path; the path of what is missing stays. -/
def normalize (tree : FileTree) (e : ClasspathEntry) : Except FileError ClasspathEntry :=
  match tree.canonical e.path with
  | .ok path => .ok { e with path }
  | .error .notFound => .ok e
  | .error cause => .error cause

end ClasspathEntry

end JvmThrows
