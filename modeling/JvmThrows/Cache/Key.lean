import JvmThrows.ClassName
import JvmThrows.Path

/-!
# Cache keys

Results are kept per top-level class: a class and all classes nested in it share one key, and with
it one document.
-/

namespace JvmThrows.Cache

open Text

/-- The key that results for a class are kept under. -/
def key (className : String) : String := ClassName.topLevel className

/-- The directories of a package below the root of a cache. -/
def packageSegments (package : String) : List String :=
  ((pieces '.' package.toList).filter (!·.isEmpty)).map String.ofList

/-- Where the document of a class is kept: a directory for each package segment, and a file named
for the top-level class. -/
def documentPath (root : Path) (className : String) : Path :=
  let (package, simple) := ClassName.splitPackage (key className)
  ((packageSegments package).foldl Path.join root).join (simple ++ ".json")

end JvmThrows.Cache
