import JvmThrows.Path
import JvmThrows.Text.Blank

/-!
# Origins

Where a declaration lives, read from the address an editor gives: a class file inside an archive,
`jar://<container>!/<entry>`, or a source file. Only declarations in archives are compiled.
-/

namespace JvmThrows

open Text

inductive Origin where
  | archive (container : Path) (entry : String)
  | source (path : Path)
  deriving DecidableEq, Repr

namespace Origin

def jarEnding : List Char := ['.', 'j', 'a', 'r']

/-- Container and entry of an archive address. The container ends at the last `.jar`; exclamation
marks and then slashes in front of the entry are left out. -/
def archive? (url : List Char) : Option (List Char × List Char) := do
  let _ ← dropHead? ['j', 'a', 'r'] url
  let (_, rest) ← cutFirstText [':', '/', '/'] url
  let (stem, tail) ← cutLastText jarEnding rest
  return (stem ++ jarEnding, (tail.dropWhile (· == '!')).dropWhile (· == '/'))

/-- Reads an address; what is no archive address is a source path. -/
def parse (url : String) : Origin :=
  let url := trim url.toList
  match archive? url with
  | some (container, entry) => .archive ⟨String.ofList container⟩ (String.ofList entry)
  | none => .source ⟨String.ofList ((dropHead? ['f', 'i', 'l', 'e', ':', '/', '/'] url).getD url)⟩

def display : Origin → String
  | archive container entry => "jar://" ++ container.text ++ "!/" ++ entry
  | source path => "file://" ++ path.text

def container? : Origin → Option Path
  | archive container _ => some container
  | source _ => none

def isCompiled (o : Origin) : Bool := o.container?.isSome

/-- Archives come before sources. -/
def rank : Origin → Nat
  | archive _ _ => 0
  | source _ => 1

/-- The container of an archive, the source itself otherwise. -/
def path : Origin → Path
  | archive container _ => container
  | source path => path

def entry? : Origin → Option String
  | archive _ entry => some entry
  | source _ => none

/-- By kind, path and entry; paths component by component. -/
instance : Ord Origin where
  compare := compareLex (compareOn rank) (compareLex (compareOn path) (compareOn entry?))

instance : Std.TransOrd Origin :=
  inferInstanceAs (Std.TransCmp (compareLex (compareOn rank)
    (compareLex (compareOn path) (compareOn entry?))))

/-- Equal up to the spelling of paths. -/
def same (a b : Origin) : Bool := compare a b == .eq

end Origin

end JvmThrows
