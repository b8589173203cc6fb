import JvmThrows.Classpath.Archive
import JvmThrows.Zip.Archive

/-!
# Reading containers

The classes of a container, in the order of their internal names. Files that are no class files are
passed over; a container that cannot be read is an error.
-/

namespace JvmThrows.ClasspathEntry

/-- The classes in the files below a directory that are named as class files. -/
def directoryClasses (tree : FileTree) (path : Path) : Except FileError (List ClassFile) :=
  match tree.locate true path with
  | .ok ⟨location, some .directory, _⟩ =>
    .ok <| (tree.below location).filterMap fun (names, node) =>
      match node with
      | .file content =>
        if (names.getLast?.bind fun name => (Path.mk name).extension?) == some "class" then
          Archive.class? content.bytes
        else none
      | _ => none
  | _ => .error (.noClassDirectory path)

def archiveEntries (tree : FileTree) (path : Path) : Except ContainerError (List ArchiveEntry) :=
  match tree.find true path with
  | .error cause => .error (.file cause)
  | .ok (.file content) =>
    match content.entries? with
    | some entries => .ok entries
    | none => .error .notArchive
  | .ok _ => .error .notArchive

/-- The classes of a container as they are found. -/
def unsortedClasses (tree : FileTree) (e : ClasspathEntry) :
    Except ContainerError (List ClassFile) :=
  match e.kind with
  | .directory =>
    match directoryClasses tree e.path with
    | .ok classes => .ok classes
    | .error cause => .error (.file cause)
  | .jar => (archiveEntries tree e.path).bind Archive.jarClasses
  | .jmod => (archiveEntries tree e.path).bind Archive.moduleClasses

/-- The classes of a container; classes of one name stay in the order in which they are found. -/
def classes (tree : FileTree) (e : ClasspathEntry) : Except ContainerError (List ClassFile) :=
  (unsortedClasses tree e).map fun cs => cs.mergeSort fun a b => a.name ≤ b.name

end JvmThrows.ClasspathEntry
