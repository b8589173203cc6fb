import JvmThrows.CommandLine.Run

/-!
# Files that runs need

The paths that a run may look at, as far as the files known so far tell. Files that are named in
other files become known once those are.
-/

namespace JvmThrows

/-- The containers of the targets of a manifest. -/
def CallManifest.containers (m : CallManifest) : List Path :=
  m.calls.filterMap fun call => call.target.bind (·.origin.container?)

def Command.paths (tree : FileTree) : Command → List Path
  | analyze calls _ _ classpath _ =>
    let manifest := (tree.readText calls).toOption.bind CallManifest.parse?
    calls :: classpath ++ (manifest.map (·.containers)).getD []
  | method _ container classpath _ => container.toList ++ classpath
  | scan container _ => [container]
  | cache _ _ _ => []

namespace Invocation

/-- Where the configuration may be. -/
def configPaths (env : Environment) (dir : Path) (i : Invocation) : List Path :=
  match i.config.or (env.configPath.map dir.join) with
  | some path => [path]
  | none => Config.fileNames.map dir.join

/-- The paths that a run may look at. -/
def paths (env : Environment) (tree : FileTree) (i : Invocation) : List Path :=
  let own := i.configPaths env (FileTree.pathOf tree.working) ++ i.command.paths tree
  match (i.configuration env).run tree with
  | (.ok config, _) => own ++ config.logging.file.toList ++ (i.root env config).toOption.toList
  | (.error _, _) => own

end Invocation

/-- Needs are settled in so many steps: first files that name others, then those. -/
def needSteps : Nat := 2

end JvmThrows
