import JvmThrows.Callable.Json
import JvmThrows.Json.Reader

/-!
# Call manifests

The calls of a source file as an editor lists them: where each stands, its text, and its target if
it was resolved.
-/

namespace JvmThrows

open Json

structure Call where
  offset : Nat
  text : String
  target : Option Callable
  deriving DecidableEq, Repr

namespace Call

/-- By offset, text and target; unresolved calls first. -/
instance : Ord Call where
  compare := compareLex (compareOn offset) (compareLex (compareOn text) (compareOn target))

instance : Std.TransOrd Call :=
  inferInstanceAs (Std.TransCmp (compareLex (compareOn offset)
    (compareLex (compareOn text) (compareOn target))))

def toJson (c : Call) : Json :=
  .object [("offset", .ofNat c.offset), ("text", .string c.text),
    ("target", .ofOption Callable.toJson c.target)]

/-- How deep the arrays and objects of a target may be nested. -/
def maxTargetDepth : Nat := 124

def target? (json : Json) : Option Callable :=
  if json.depth ≤ maxTargetDepth then Callable.ofJson? json else none

def ofJson? (json : Json) : Option Call := do
  match ← record? ["offset", "text", "target"] json with
  | [offset, text, target] =>
    return ⟨← required? (natBelow? (Nat.pow 2 64)) offset, ← default? "" text? text,
      ← optional? target? target⟩
  | _ => none

end Call

structure CallManifest where
  calls : List Call
  deriving DecidableEq, Repr

namespace CallManifest

def ofJson? (json : Json) : Option CallManifest := do
  match ← record? ["calls"] json with
  | [calls] => return ⟨← default? [] (list? Call.ofJson?) calls⟩
  | _ => none

def parse? (text : String) : Option CallManifest := (Json.parse? text).bind ofJson?

/-- The calls with an offset in `[start, stop)`, in the order listed. -/
def callsIn (m : CallManifest) (start stop : Nat) : List Call :=
  m.calls.filter fun c => start ≤ c.offset && c.offset < stop

end CallManifest

end JvmThrows
