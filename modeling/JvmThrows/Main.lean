import JvmThrows.CommandLine.Needs
import JvmThrows.Zip.Archive

/-!
# The program

Takes the files that a run may look at into a file tree, runs, and carries the changes of the tree
out.
-/

namespace JvmThrows.Program

def environment : IO Environment := do
  return { configPath := ← IO.getEnv "JEM_CONFIG_PATH"
           cacheDirectory := ← IO.getEnv "JEM_CACHE_DIR"
           home := ← IO.getEnv "HOME"
           profile := ← IO.getEnv "USERPROFILE"
           logDirectives := ← IO.getEnv "RUST_LOG" }

def set (tree : FileTree) (location : Location) (node : Node) : FileTree :=
  { tree with nodes := tree.nodes.insert location node }

/-- Takes in what is at a location, with everything below. Links below are not followed. -/
partial def load (tree : FileTree) (location : Location) (follow : Bool) : IO FileTree := do
  let place := (← IO.currentDir) / (FileTree.pathOf location).text
  match ← (if follow then place.metadata else place.symlinkMetadata).toBaseIO with
  | .error _ => return tree
  | .ok metadata =>
    match metadata.type with
    | .dir =>
      let names := (← place.readDir).toList.map (·.fileName)
      names.foldlM (fun tree name => load tree (location ++ [name]) false)
        (set tree location .directory)
    | .symlink => return set tree location (.link ⟨(← IO.FS.realPath place).toString⟩)
    | _ => return set tree location (.file (.ofFile (← IO.FS.readBinFile place)))

/-- The location that a path names, from the working directory on. -/
def locationOf (tree : FileTree) (path : Path) : Location :=
  (FileTree.namesOf path).foldl
    (fun here name =>
      if name = "." then here else if name = ".." then here.dropLast else here ++ [name])
    (tree.startOf path)

/-- Takes in the directories on the way to a location. -/
def loadWay (tree : FileTree) (location : Location) : IO FileTree :=
  (List.range location.length).foldlM (fun tree n => do
    let above := location.take n
    let place := (← IO.currentDir) / (FileTree.pathOf above).text
    return if n ≠ 0 && (← place.isDir) then set tree above .directory else tree) tree

def loadPath (tree : FileTree) (path : Path) : IO FileTree := do
  let location := locationOf tree path
  load (← loadWay tree location) location true

/-- Takes in what a run needs. -/
def loadNeeds (env : Environment) (i : Invocation) : Nat → FileTree → IO FileTree
  | 0, tree => return tree
  | n + 1, tree => do loadNeeds env i n (← (i.paths env tree).foldlM loadPath tree)

/-- Carries out the difference between two trees. -/
def apply (before after : FileTree) : IO Unit := do
  for (location, node) in after.nodes.toList do
    if before.nodes[location]? ≠ some node then
      let place := (← IO.currentDir) / (FileTree.pathOf location).text
      match node with
      | .directory => IO.FS.createDirAll place
      | .file content => IO.FS.writeBinFile place ⟨content.bytes.toArray⟩
      | .link _ => pure ()
  for (location, _) in before.nodes.toList do
    if (after.nodes[location]?).isNone then
      IO.FS.removeFile ((← IO.currentDir) / (FileTree.pathOf location).text)

/-- The tree of the working directory alone. -/
def start : IO FileTree := do
  let working := FileTree.namesOf ⟨(← IO.currentDir).toString⟩
  loadWay ⟨∅, working⟩ (working ++ [""])

def run (arguments : List String) : IO Outcome := do
  let env ← environment
  let tree ← start
  let tree ← match CommandLine.parse arguments with
    | .ok invocation => loadNeeds env invocation needSteps tree
    | .error _ => pure tree
  let (outcome, after) := CommandLine.run env arguments tree
  apply tree after
  return outcome

end JvmThrows.Program

open JvmThrows in
def main (arguments : List String) : IO UInt32 := do
  let outcome ← Program.run arguments
  IO.print outcome.stdout
  IO.eprint outcome.stderr
  return UInt32.ofNat outcome.code
