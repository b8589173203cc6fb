import JvmThrows.Chain
import JvmThrows.ClassName
import JvmThrows.Descriptor
import JvmThrows.Text.Letter
import JvmThrows.TypeText.Generics

/-!
# Erasing Java type text

A Java type text is read down to the name of its element: annotations and type arguments go, array
marks are counted, and every `? extends` is passed through. The element then decides the type. A
text that fits nothing is taken as the name of a class, so erasure is total.
-/

namespace JvmThrows

/-- A type variable in scope of a declaration, with its bounds as type text. -/
structure TypeParameter where
  name : String
  bounds : List String
  deriving DecidableEq, Repr

namespace TypeText

open Text

/-- How many steps from a type variable to a bound, through a wildcard or into an array an erasure
may take before a variable counts as unbounded. -/
def maxBoundDepth : Nat := 8

def objectName : String := "java/lang/Object"

def object : FieldType := .object objectName

/-- Leaves out the words that begin with an at sign. -/
def stripAnnotations (text : List Char) : List Char :=
  if text.contains '@' then unwords ((words text).filter fun w => w.head? != some '@') else text

theorem length_stripAnnotations_le (text : List Char) :
    (stripAnnotations text).length ≤ text.length := by
  unfold stripAnnotations
  split
  · exact Nat.le_trans (length_unwords_filter_le _ _) (length_unwords_words text).1
  · exact Nat.le_refl _

/-- Segments between dots begin with a letter, `_` or `$` and go on with letters, digits, `_` or
`$`. -/
def isQualifiedName (name : List Char) : Bool :=
  (pieces '.' name).all fun segment =>
    match segment with
    | [] => false
    | c :: cs =>
      (isLetter c || c == '_' || c == '$') &&
        cs.all fun c => isLetterOrDigit c || c == '_' || c == '$'

/-- The class a text names; text that is no name is taken without its blanks. -/
def reference (name : List Char) : FieldType :=
  if name.isEmpty then object
  else if isQualifiedName name then
    .object (String.ofList (replaceChar '.' '/' (ClassName.ofQualifiedChars name)))
  else .object (String.ofList (replaceChar '.' '/' (name.filter fun c => !isBlank c)))

/-- The bounds of the first type variable of a name. -/
def boundsOf? (params : List TypeParameter) (name : List Char) : Option (List String) :=
  (params.find? fun p => p.name.toList == name).map TypeParameter.bounds

namespace Java

def keyword? : String → Option BaseType
  | "byte" => some .byte
  | "char" => some .char
  | "double" => some .double
  | "float" => some .float
  | "int" => some .int
  | "long" => some .long
  | "short" => some .short
  | "boolean" => some .boolean
  | _ => none

/-- Takes the array marks off the end of a text and counts them. -/
def stripDims (text : List Char) : Nat × List Char :=
  match _h : dropTail? ['[', ']'] text with
  | none => (0, text)
  | some rest =>
    let (dims, base) := stripDims (trimEnd rest)
    (dims + 1, base)
termination_by text.length
decreasing_by
  have h1 := length_trimEnd_le rest
  have h2 := congrArg List.length (dropTail?_eq_some_iff.1 _h)
  simp at h2
  omega

theorem length_stripDims_le (text : List Char) : (stripDims text).2.length ≤ text.length := by
  fun_induction stripDims text with
  | case1 => exact Nat.le_refl _
  | case2 text rest h dims base hs ih =>
    rw [hs] at ih
    have h1 := length_trimEnd_le rest
    have h2 := congrArg List.length (dropTail?_eq_some_iff.1 h)
    simp at h2 ih ⊢
    omega

/-- Takes the mark of a variable number of arguments off, which counts as one dimension. -/
def stripEllipsis (text : List Char) : Nat × List Char :=
  match dropTail? ['.', '.', '.'] text with
  | some rest => (1, trimEnd rest)
  | none => (0, text)

theorem length_stripEllipsis_le (text : List Char) :
    (stripEllipsis text).2.length ≤ text.length := by
  unfold stripEllipsis
  split
  · rename_i rest h
    have h1 := length_trimEnd_le rest
    have h2 := congrArg List.length (dropTail?_eq_some_iff.1 h)
    simp at h2 ⊢
    omega
  · exact Nat.le_refl _

/-- Array dimensions of a text, and the text without them, annotations and type arguments. -/
def outline (text : List Char) : Nat × List Char :=
  let (variadic, body) := stripEllipsis (trim (stripAnnotations text))
  let (dims, base) := stripDims (trim (splitGenerics body).1)
  (variadic + dims, base)

theorem length_outline_le (text : List Char) : (outline text).2.length ≤ text.length := by
  have h1 := length_stripAnnotations_le text
  have h2 := length_trim_le (stripAnnotations text)
  have h3 := length_stripEllipsis_le (trim (stripAnnotations text))
  have h4 := length_splitGenerics_le (stripEllipsis (trim (stripAnnotations text))).2
  have h5 := length_trim_le (splitGenerics (stripEllipsis (trim (stripAnnotations text))).2).1
  have h6 := length_stripDims_le
    (trim (splitGenerics (stripEllipsis (trim (stripAnnotations text))).2).1)
  simp only [outline]
  omega

/-- What stands before the bound of an upper-bounded wildcard. -/
def extendsMark : List Char := ['?', ' ', 'e', 'x', 't', 'e', 'n', 'd', 's', ' ']

/-- What stands before the bound of a lower-bounded wildcard. -/
def superMark : List Char := ['?', ' ', 's', 'u', 'p', 'e', 'r', ' ']

/-- The bound of an upper-bounded wildcard. -/
def upperBound? (name : List Char) : Option (List Char) := dropHead? extendsMark name

theorem length_upperBound?_lt {name bound : List Char} (h : upperBound? name = some bound) :
    bound.length < name.length := by
  have := congrArg List.length (dropHead?_eq_some_iff.1 h)
  simp [extendsMark] at this
  omega

/-- The text inside an upper-bounded wildcard. -/
def bound? (text : List Char) : Option { inner : List Char // inner.length < text.length } :=
  match h : upperBound? (outline text).2 with
  | some inner =>
    some ⟨inner, Nat.lt_of_lt_of_le (length_upperBound?_lt h) (length_outline_le text)⟩
  | none => none

/-- A text and the texts inside its upper-bounded wildcards, the outermost first. -/
def layers (text : List Char) : List (List Char) := chain List.length bound? text

/-- What a Java type text comes down to. -/
structure Shape where
  /-- Array dimensions of all layers together. -/
  dims : Nat
  /-- How many upper-bounded wildcards were passed. -/
  wildcards : Nat
  /-- The name of the element. -/
  name : List Char

def shape (text : List Char) : Shape where
  dims := ((layers text).map fun t => (outline t).1).foldr (· + ·) 0
  wildcards := (layers text).length - 1
  name := (outline ((layers text).getLastD text)).2

/-- What an element name stands for by itself: a base type, a wildcard or a type variable without
a bound to follow, or a class. -/
def element (params : List TypeParameter) (name : List Char) : FieldType :=
  match keyword? (String.ofList name) with
  | some type => .base type
  | none =>
    if name == ['?'] || (dropHead? superMark name).isSome || (boundsOf? params name).isSome then
      object
    else reference name

/-- A hop to a bound leaves fewer hops. -/
theorem lt_of_hops_left {hops used left : Nat} (h : hops - used = left + 1) : left < hops := by
  omega

/-- Whether a name is looked up among the type variables. -/
def isPlain (name : List Char) : Bool :=
  (keyword? (String.ofList name)).isNone && name != ['?'] && (dropHead? superMark name).isNone

/-- A text to erase, and how many hops to bounds it may take. -/
structure Goal where
  hops : Nat
  text : List Char

/-- From a type variable to its first bound, while hops are left. -/
def Goal.next? (params : List TypeParameter) (g : Goal) : Option { h : Goal // h.hops < g.hops } :=
  let s := shape g.text
  if isPlain s.name then
    match boundsOf? params s.name, h : g.hops - s.wildcards with
    | some (bound :: _), left + 1 => some ⟨⟨left, bound.toList⟩, lt_of_hops_left h⟩
    | _, _ => none
  else none

/-- The goals on the way from a text to the bound that decides. -/
def Goal.path (params : List TypeParameter) (g : Goal) : List Goal :=
  chain Goal.hops (Goal.next? params) g

/-- Erases a Java type text: array dimensions add up along the way, the last goal gives the
element. -/
def erase (params : List TypeParameter) (text : List Char) : FieldType :=
  let start : Goal := ⟨maxBoundDepth, text⟩
  let path := start.path params
  let last := path.getLastD start
  (element params (shape last.text).name).arrayOf
    ((path.map fun g => (shape g.text).dims).foldr (· + ·) 0)

end Java

end TypeText

end JvmThrows
