import JvmThrows.Text.Cut

/-!
# Class names

A class has three spellings: internal (`java/util/Map$Entry`, in class files), binary
(`java.util.Map$Entry`, in results) and qualified (`java.util.Map.Entry`, in source). All
conversions are total: a name that fits no convention is carried over as it is.
-/

namespace JvmThrows.ClassName

open Text

/-- Slashes become dots. -/
def toBinary (name : String) : String := String.ofList (replaceChar '/' '.' name.toList)

/-- Dots become slashes. -/
def toInternal (name : String) : String := String.ofList (replaceChar '.' '/' name.toList)

/-- Class names, unlike package names, begin with an ASCII capital. -/
def startsUpper (segment : List Char) : Bool := segment.head?.any Char.isUpper

/-- Joins the segments of a name: with dots up to the first class segment, with dollars after it. -/
def joinNested : Bool → List (List Char) → List Char
  | _, [] => []
  | _, [segment] => segment
  | inClass, segment :: rest =>
    let inClass := inClass || startsUpper segment
    segment ++ (if inClass then '$' else '.') :: joinNested inClass rest

def ofQualifiedChars (name : List Char) : List Char :=
  if name.contains '$' then name else joinNested false (pieces '.' name)

/-- The binary spelling of a qualified name: every segment after the first class segment names a
nested class. A name that already has a dollar stays as it is. -/
def ofQualified (name : String) : String := String.ofList (ofQualifiedChars name.toList)

/-- What stands before the first dollar, unless that is empty or ends in a dot. -/
def outerChars (binary : List Char) : List Char :=
  match cutFirst '$' binary with
  | some (outer, _) => if outer.isEmpty || outer.getLast? == some '.' then binary else outer
  | none => binary

/-- The binary name of the top-level class that a class, in any spelling, belongs to. -/
def topLevel (name : String) : String :=
  String.ofList (outerChars (ofQualifiedChars (replaceChar '/' '.' name.toList)))

/-- Package and simple name; the package is empty without a dot. -/
def splitPackage (binary : String) : String × String :=
  match cutLast '.' binary.toList with
  | some (package, simple) => (String.ofList package, String.ofList simple)
  | none => ("", binary)

end JvmThrows.ClassName
