import JvmThrows.TypeText.Java

/-!
# Erasing Kotlin type text

A Kotlin type text is read through `Array<...>` down to its element. Primitive types are boxed where
they may be null, inside arrays and as bounds. Names of the Kotlin library stand for the classes
they compile to.
-/

namespace JvmThrows.TypeText.Kotlin

open Text

/-- `kotlin.` -/
def packageMark : List Char := ['k', 'o', 't', 'l', 'i', 'n', '.']

def dropPackage (name : List Char) : List Char := (dropHead? packageMark name).getD name

/-- A name without the package of the Kotlin library it is in. -/
def dropLibraryPackage (name : List Char) : List Char :=
  (dropHead? "kotlin.collections.".toList name).getD
    ((dropHead? "kotlin.annotation.".toList name).getD (dropPackage name))

/-- The primitive types with their base types and boxes. -/
def primitives : List (String × BaseType × String) :=
  [("Int", .int, "java/lang/Integer"), ("Long", .long, "java/lang/Long"),
   ("Short", .short, "java/lang/Short"), ("Byte", .byte, "java/lang/Byte"),
   ("Char", .char, "java/lang/Character"), ("Boolean", .boolean, "java/lang/Boolean"),
   ("Float", .float, "java/lang/Float"), ("Double", .double, "java/lang/Double")]

/-- Base type and box of a primitive type. -/
def primitive? (name : List Char) : Option (BaseType × String) :=
  primitives.lookup (String.ofList (dropPackage name))

/-- The element of an array of primitives such as `IntArray`. -/
def primitiveArray? (name : List Char) : Option BaseType :=
  (dropTail? ['A', 'r', 'r', 'a', 'y'] (dropPackage name)).bind fun element =>
    (primitive? element).map (·.1)

/-- Library classes and the classes they compile to. -/
def libraryClasses : List (String × String) :=
  [("Any", objectName), ("String", "java/lang/String"), ("CharSequence", "java/lang/CharSequence"),
   ("Number", "java/lang/Number"), ("Throwable", "java/lang/Throwable"),
   ("Comparable", "java/lang/Comparable"), ("Enum", "java/lang/Enum"),
   ("Cloneable", "java/lang/Cloneable"), ("Nothing", "java/lang/Void"),
   ("Annotation", "java/lang/annotation/Annotation"), ("Unit", "kotlin/Unit"),
   ("Iterable", "java/lang/Iterable"), ("MutableIterable", "java/lang/Iterable"),
   ("Collection", "java/util/Collection"), ("MutableCollection", "java/util/Collection"),
   ("List", "java/util/List"), ("MutableList", "java/util/List"),
   ("Set", "java/util/Set"), ("MutableSet", "java/util/Set"),
   ("Map", "java/util/Map"), ("MutableMap", "java/util/Map"),
   ("Map.Entry", "java/util/Map$Entry"), ("MutableMap.MutableEntry", "java/util/Map$Entry"),
   ("Iterator", "java/util/Iterator"), ("MutableIterator", "java/util/Iterator"),
   ("ListIterator", "java/util/ListIterator"), ("MutableListIterator", "java/util/ListIterator"),
   ("NoSuchElementException", "java/util/NoSuchElementException"),
   ("ConcurrentModificationException", "java/util/ConcurrentModificationException")]

/-- Aliases of exceptions, which count only with their package. -/
def exceptionAliases : List (String × String) :=
  [("Exception", "java/lang/Exception"), ("Error", "java/lang/Error"),
   ("RuntimeException", "java/lang/RuntimeException"),
   ("IllegalArgumentException", "java/lang/IllegalArgumentException"),
   ("IllegalStateException", "java/lang/IllegalStateException"),
   ("IndexOutOfBoundsException", "java/lang/IndexOutOfBoundsException"),
   ("UnsupportedOperationException", "java/lang/UnsupportedOperationException"),
   ("ArithmeticException", "java/lang/ArithmeticException"),
   ("NumberFormatException", "java/lang/NumberFormatException"),
   ("NullPointerException", "java/lang/NullPointerException"),
   ("ClassCastException", "java/lang/ClassCastException"),
   ("AssertionError", "java/lang/AssertionError")]

/-- The internal name of the class a library name compiles to. -/
def library? (name : List Char) : Option String :=
  let short := String.ofList (dropLibraryPackage name)
  libraryClasses.lookup short <|>
    if (dropHead? packageMark name).isSome then exceptionAliases.lookup short else none

def stripVariance (text : List Char) : List Char :=
  match dropHead? ['o', 'u', 't', ' '] text with
  | some rest => trimStart rest
  | none =>
    match dropHead? ['i', 'n', ' '] text with
    | some rest => trimStart rest
    | none => text

theorem length_stripVariance_le (text : List Char) : (stripVariance text).length ≤ text.length := by
  unfold stripVariance
  split
  · rename_i rest h
    have h1 := length_trimStart_le rest
    have h2 := congrArg List.length (dropHead?_eq_some_iff.1 h)
    simp at h2
    omega
  · split
    · rename_i rest h
      have h1 := length_trimStart_le rest
      have h2 := congrArg List.length (dropHead?_eq_some_iff.1 h)
      simp at h2
      omega
    · exact Nat.le_refl _

/-- Whether a text ends in a question mark, and the text without it. -/
def stripNullable (text : List Char) : Bool × List Char :=
  match dropTail? ['?'] text with
  | some rest => (true, trimEnd rest)
  | none => (false, text)

theorem length_stripNullable_le (text : List Char) :
    (stripNullable text).2.length ≤ text.length := by
  unfold stripNullable
  split
  · rename_i rest h
    have h1 := length_trimEnd_le rest
    have h2 := congrArg List.length (dropTail?_eq_some_iff.1 h)
    simp at h2 ⊢
    omega
  · exact Nat.le_refl _

/-- A text without annotations, question mark and variance. -/
def body (text : List Char) : List Char :=
  stripVariance (stripNullable (trim (stripAnnotations text))).2

theorem length_body_le (text : List Char) : (body text).length ≤ text.length := by
  have h1 := length_stripAnnotations_le text
  have h2 := length_trim_le (stripAnnotations text)
  have h3 := length_stripNullable_le (trim (stripAnnotations text))
  have h4 := length_stripVariance_le (stripNullable (trim (stripAnnotations text))).2
  unfold body
  omega

def isNullable (text : List Char) : Bool := (stripNullable (trim (stripAnnotations text))).1

/-- The name in front of the type arguments. -/
def baseName (text : List Char) : List Char := trim (splitGenerics (body text)).1

def isArray (name : List Char) : Bool :=
  let short := String.ofList name
  short == "Array" || short == "kotlin.Array"

/-- The type argument of an array. -/
def arrayElement? (text : List Char) : Option { inner : List Char // inner.length < text.length } :=
  if body text != ['*'] && isArray (baseName text) then
    match h : (splitGenerics (body text)).2 with
    | [] => none
    | arg :: _ =>
      some ⟨arg, Nat.lt_of_lt_of_le
        (length_lt_of_mem_splitGenerics (by rw [h]; exact List.mem_cons_self))
        (length_body_le text)⟩
  else none

/-- A text and the texts of the array elements inside it, the outermost first. -/
def layers (text : List Char) : List (List Char) := chain List.length arrayElement? text

/-- What an element text stands for by itself. -/
def element (params : List TypeParameter) (boxed : Bool) (text : List Char) : FieldType :=
  if body text == ['*'] then object
  else
    let name := baseName text
    if isArray name then object.arrayOf 1
    else
      match primitiveArray? name with
      | some type => (FieldType.base type).arrayOf 1
      | none =>
        match primitive? name with
        | some (type, box) => if boxed || isNullable text then .object box else .base type
        | none =>
          if (boundsOf? params name).isSome then object
          else
            match library? name with
            | some internal => .object internal
            | none => reference name

/-- Whether the name of an element text is looked up among the type variables. -/
def isPlain (text : List Char) : Bool :=
  let name := baseName text
  body text != ['*'] && !isArray name && (primitiveArray? name).isNone && (primitive? name).isNone

/-- A text to erase, how many hops it may take, and whether primitive types are boxed in it. -/
structure Goal where
  hops : Nat
  boxed : Bool
  text : List Char

/-- The innermost element of a goal. -/
def Goal.inner (g : Goal) : List Char := (layers g.text).getLastD g.text

/-- The array dimensions around it. -/
def Goal.dims (g : Goal) : Nat := (layers g.text).length - 1

/-- From a type variable to its first bound, while hops are left. -/
def Goal.next? (params : List TypeParameter) (g : Goal) : Option { h : Goal // h.hops < g.hops } :=
  if isPlain g.inner then
    match boundsOf? params (baseName g.inner), h : g.hops - g.dims with
    | some (bound :: _), left + 1 => some ⟨⟨left, true, bound.toList⟩, Java.lt_of_hops_left h⟩
    | _, _ => none
  else none

/-- The goals on the way from a text to the bound that decides. -/
def Goal.path (params : List TypeParameter) (g : Goal) : List Goal :=
  chain Goal.hops (Goal.next? params) g

/-- Erases a Kotlin type text: array dimensions add up along the way, the last goal gives the
element. -/
def erase (params : List TypeParameter) (text : List Char) : FieldType :=
  let start : Goal := ⟨maxBoundDepth, false, text⟩
  let path := start.path params
  let last := path.getLastD start
  (element params (last.boxed || last.dims != 0) last.inner).arrayOf
    ((path.map Goal.dims).foldr (· + ·) 0)

/-- The binary name of the class a Kotlin class name compiles to. -/
def toJvmClass (name : String) : String :=
  let text := ((trim name.toList).reverse.dropWhile (· == '?')).reverse
  let base := trim (splitGenerics text).1
  match (primitive? base).map (·.2) <|> library? base with
  | some internal => ClassName.toBinary internal
  | none => String.ofList (ClassName.ofQualifiedChars base)

end JvmThrows.TypeText.Kotlin
