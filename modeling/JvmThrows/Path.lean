import JvmThrows.Text.Cut

/-!
# Paths

A path is kept as it was written. It is compared by its components: repeated and trailing slashes
and dots that are not at the front make no difference.
-/

namespace JvmThrows

open Text

inductive Component where
  | root | here | up
  | name (text : String)
  deriving DecidableEq, Repr

namespace Component

/-- Root, here, up, and then names. -/
def rank : Component → Nat
  | root => 0
  | here => 1
  | up => 2
  | name _ => 3

def label : Component → String
  | name text => text
  | _ => ""

instance : Ord Component where
  compare := compareLex (compareOn rank) (compareOn label)

instance : Std.TransOrd Component :=
  inferInstanceAs (Std.TransCmp (compareLex (compareOn rank) (compareOn label)))

instance : Std.LawfulEqOrd Component where
  eq_of_compare {a b} h := by
    simp only [compare, compareLex, Ordering.then_eq_eq] at h
    have h1 := Std.LawfulEqOrd.eq_of_compare h.1
    have h2 := Std.LawfulEqOrd.eq_of_compare h.2
    cases a <;> cases b <;> simp_all [rank, label]

def ofPiece (piece : List Char) : Component :=
  if piece == ['.', '.'] then up else name (String.ofList piece)

end Component

/-- A path as written. -/
structure Path where
  text : String
  deriving DecidableEq, Repr

namespace Path

def isAbsolute (p : Path) : Bool := p.text.toList.head? == some '/'

/-- Whether a piece between slashes behind the first is no component. -/
def isIdle (piece : List Char) : Bool := piece.isEmpty || piece == ['.']

def components (p : Path) : List Component :=
  let ps := pieces '/' p.text.toList
  let start :=
    if p.isAbsolute then [.root] else if ps.head? == some ['.'] then [.here] else []
  start ++ (ps.filter fun piece => !isIdle piece).map Component.ofPiece

/-- Component by component. -/
instance : Ord Path where
  compare := compareOn Path.components

instance : Std.TransOrd Path := inferInstanceAs (Std.TransCmp (compareOn Path.components))

/-- The same components. -/
def same (p q : Path) : Bool := p.components == q.components

/-- Puts a path behind another; an absolute one takes its place. -/
def join (p : Path) (tail : String) : Path :=
  if (Path.mk tail).isAbsolute then ⟨tail⟩
  else
    match p.text.toList.getLast? with
    | none => ⟨tail⟩
    | some '/' => ⟨p.text ++ tail⟩
    | some _ => ⟨p.text ++ "/" ++ tail⟩

/-- Drops the pieces at the end that are no components. The first piece counts as one. -/
def dropIdle : List (List Char) → List (List Char)
  | [] => []
  | first :: rest => first :: (rest.reverse.dropWhile isIdle).reverse

/-- The path without its last component, as it was written; none of the root and of the empty
path. -/
def parent? (p : Path) : Option Path :=
  match p.components.getLast? with
  | none | some .root => none
  | some _ =>
    match dropIdle (dropIdle (pieces '/' p.text.toList)).dropLast with
    | [[]] => some ⟨"/"⟩
    | kept => some ⟨"/".intercalate (kept.map String.ofList)⟩

/-- The last component, if it is a name. -/
def fileName? (p : Path) : Option String :=
  match p.components.getLast? with
  | some (.name text) => some text
  | _ => none

/-- What stands after the last dot of the file name, unless that dot is its first character. -/
def extension? (p : Path) : Option String :=
  p.fileName?.bind fun name =>
    match cutLast '.' name.toList with
    | some (stem, ext) => if stem.isEmpty then none else some (String.ofList ext)
    | none => none

end Path

end JvmThrows
