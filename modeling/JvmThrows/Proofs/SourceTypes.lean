import JvmThrows.Proofs.TypeTexts

/-!
# Types as the two languages write them

A type that both languages have, spelled in either: `SourceType.java` and `SourceType.kotlin`.
Java has one spelling. In Kotlin a library name may have its package, a type may be marked as
nullable, and the element of an array as covariant; the tree of a type says which is the case.
`SourceType.erasure` is what the type is at run time, told from the tree alone.
-/

namespace JvmThrows.TypeText

open Text

/-! ### Names -/

/-- A type variable that stands for nothing else in either language. -/
structure TypeVariable where
  name : String
  identifier : isIdentifier name.toList = true
  not_java : Java.keyword? name = none ∧ name ≠ "void"
  not_kotlin : Kotlin.isArray name.toList = false ∧ Kotlin.primitiveArray? name.toList = none ∧
    Kotlin.primitive? name.toList = none ∧ Kotlin.library? name.toList = none

/-- The variable as it is declared, without bounds. -/
def TypeVariable.parameter (v : TypeVariable) : TypeParameter := ⟨v.name, []⟩

/-- The qualified name of a class outside of the Kotlin library, in a package. -/
structure UserClass where
  /-- The first segment. -/
  package : List Char
  /-- All other segments. -/
  path : List (List Char)
  path_ne_nil : path ≠ []
  identifiers : ∀ segment ∈ package :: path, isIdentifier segment = true
  not_upper : ClassName.startsUpper package = false
  not_kotlin : package ≠ "kotlin".toList

def UserClass.name (c : UserClass) : List Char := ['.'].intercalate (c.package :: c.path)

def UserClass.internalName (c : UserClass) : String :=
  ClassName.toInternal (ClassName.ofQualified (String.ofList c.name))

def keyword : BaseType → String
  | .byte => "byte"
  | .char => "char"
  | .double => "double"
  | .float => "float"
  | .int => "int"
  | .long => "long"
  | .short => "short"
  | .boolean => "boolean"

/-- The qualified name of the class of boxed values. -/
def boxName : BaseType → String
  | .byte => "java.lang.Byte"
  | .char => "java.lang.Character"
  | .double => "java.lang.Double"
  | .float => "java.lang.Float"
  | .int => "java.lang.Integer"
  | .long => "java.lang.Long"
  | .short => "java.lang.Short"
  | .boolean => "java.lang.Boolean"

def kotlinName : BaseType → String
  | .byte => "Byte"
  | .char => "Char"
  | .double => "Double"
  | .float => "Float"
  | .int => "Int"
  | .long => "Long"
  | .short => "Short"
  | .boolean => "Boolean"

/-- Classes that have a name of their own in the Kotlin library. -/
inductive LibraryClass where
  | object | string | charSequence | number | throwable | comparable | iterable | collection | list
  | set | map | mapEntry | iterator | listIterator
  deriving DecidableEq, Repr

namespace LibraryClass

def javaName : LibraryClass → String
  | object => "java.lang.Object"
  | string => "java.lang.String"
  | charSequence => "java.lang.CharSequence"
  | number => "java.lang.Number"
  | throwable => "java.lang.Throwable"
  | comparable => "java.lang.Comparable"
  | iterable => "java.lang.Iterable"
  | collection => "java.util.Collection"
  | list => "java.util.List"
  | set => "java.util.Set"
  | map => "java.util.Map"
  | mapEntry => "java.util.Map.Entry"
  | iterator => "java.util.Iterator"
  | listIterator => "java.util.ListIterator"

def internalName : LibraryClass → String
  | object => "java/lang/Object"
  | string => "java/lang/String"
  | charSequence => "java/lang/CharSequence"
  | number => "java/lang/Number"
  | throwable => "java/lang/Throwable"
  | comparable => "java/lang/Comparable"
  | iterable => "java/lang/Iterable"
  | collection => "java/util/Collection"
  | list => "java/util/List"
  | set => "java/util/Set"
  | map => "java/util/Map"
  | mapEntry => "java/util/Map$Entry"
  | iterator => "java/util/Iterator"
  | listIterator => "java/util/ListIterator"

/-- The names without their package; collections also have one for the mutable kind. -/
def shortNames : LibraryClass → List String
  | object => ["Any"]
  | string => ["String"]
  | charSequence => ["CharSequence"]
  | number => ["Number"]
  | throwable => ["Throwable"]
  | comparable => ["Comparable"]
  | iterable => ["Iterable", "MutableIterable"]
  | collection => ["Collection", "MutableCollection"]
  | list => ["List", "MutableList"]
  | set => ["Set", "MutableSet"]
  | map => ["Map", "MutableMap"]
  | mapEntry => ["Map.Entry", "MutableMap.MutableEntry"]
  | iterator => ["Iterator", "MutableIterator"]
  | listIterator => ["ListIterator", "MutableListIterator"]

def package : LibraryClass → String
  | object | string | charSequence | number | throwable | comparable => "kotlin."
  | _ => "kotlin.collections."

def kotlinNames (c : LibraryClass) : List String :=
  c.shortNames ++ c.shortNames.map (c.package ++ ·)

end LibraryClass

/-! ### Types -/

mutual

/-- A type, with the choices that its Kotlin text leaves open. -/
inductive SourceType (scope : List TypeVariable) : Type
  | primitive (type : BaseType) (qualified : Bool)
  | boxed (type : BaseType) (args : SourceArgs scope) (qualified nullable : Bool)
  | library (c : LibraryClass) (name : String) (named : name ∈ c.kotlinNames)
    (args : SourceArgs scope) (nullable : Bool)
  | user (c : UserClass) (args : SourceArgs scope) (nullable : Bool)
  | typeVar (v : TypeVariable) (inScope : v ∈ scope) (nullable : Bool)
  | array (element : SourceType scope) (qualified covariant nullable : Bool)

/-- Type arguments: wildcards without a bound, types, and wildcards with an upper or lower bound. -/
inductive SourceArgs (scope : List TypeVariable) : Type
  | nil
  | any (rest : SourceArgs scope)
  | exactly (type : SourceType scope) (rest : SourceArgs scope)
  | upper (type : SourceType scope) (rest : SourceArgs scope)
  | lower (type : SourceType scope) (rest : SourceArgs scope)

end

variable {scope : List TypeVariable}

mutual

/-- The type in Java. -/
def SourceType.java : SourceType scope → List Char
  | .primitive type _ => (keyword type).toList
  | .boxed type args .. => (boxName type).toList ++ group args.java
  | .library c _ _ args _ => c.javaName.toList ++ group args.java
  | .user c args _ => c.name ++ group args.java
  | .typeVar v .. => v.name.toList
  | .array element .. => element.java ++ ['[', ']']

def SourceArgs.java : SourceArgs scope → List (List Char)
  | .nil => []
  | .any rest => ['?'] :: rest.java
  | .exactly type rest => type.java :: rest.java
  | .upper type rest => ("? extends ".toList ++ type.java) :: rest.java
  | .lower type rest => ("? super ".toList ++ type.java) :: rest.java

end

def SourceType.primitive? : SourceType scope → Option BaseType
  | .primitive type _ => some type
  | _ => none

/-- A name of the package `kotlin`. -/
def kotlinQualified (qualified : Bool) (name : String) : List Char :=
  (if qualified then "kotlin." ++ name else name).toList

mutual

/-- The type in Kotlin. A type that is boxed need not be nullable inside of another one. -/
def SourceType.kotlin (inside : Bool) : SourceType scope → List Char
  | .primitive type qualified =>
    Kotlin.written (kotlinQualified qualified (kotlinName type)) [] false
  | .boxed type args qualified nullable =>
    Kotlin.written (kotlinQualified qualified (kotlinName type)) args.kotlin (nullable || !inside)
  | .library _ name _ args nullable => Kotlin.written name.toList args.kotlin nullable
  | .user c args nullable => Kotlin.written c.name args.kotlin nullable
  | .typeVar v _ nullable => Kotlin.written v.name.toList [] nullable
  | .array element qualified covariant nullable =>
    match element.primitive? with
    | some type =>
      Kotlin.written (kotlinQualified qualified (kotlinName type ++ "Array")) [] nullable
    | none => Kotlin.written (kotlinQualified qualified "Array")
      [Kotlin.outMark covariant ++ element.kotlin true] nullable

def SourceArgs.kotlin : SourceArgs scope → List (List Char)
  | .nil => []
  | .any rest => ['*'] :: rest.kotlin
  | .exactly type rest => type.kotlin true :: rest.kotlin
  | .upper type rest => ("out ".toList ++ type.kotlin true) :: rest.kotlin
  | .lower type rest => ("in ".toList ++ type.kotlin true) :: rest.kotlin

end

/-- What a value of the type is at run time. -/
def SourceType.erasure : SourceType scope → FieldType
  | .primitive type _ => .base type
  | .boxed type .. => .object (ClassName.toInternal (boxName type))
  | .library c .. => .object c.internalName
  | .user c .. => .object c.internalName
  | .typeVar .. => .object "java/lang/Object"
  | .array element .. => .array element.erasure

/-- What a method returns. There are several texts for nothing. -/
inductive SourceResult (scope : List TypeVariable) : Type
  | void (java kotlin : Option String) (inJava : java ∈ [none, some "void"])
    (inKotlin : kotlin ∈ [none, some "Unit", some "kotlin.Unit"])
  | value (type : SourceType scope)

namespace SourceResult

def java : SourceResult scope → Option String
  | void java _ _ _ => java
  | value type => some (String.ofList type.java)

def kotlin : SourceResult scope → Option String
  | void _ kotlin _ _ => kotlin
  | value type => some (String.ofList (type.kotlin false))

def erasure : SourceResult scope → ReturnType
  | void .. => .void
  | value type => .value type.erasure

end SourceResult

end JvmThrows.TypeText
