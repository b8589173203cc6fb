import JvmThrows.TypeText.Kotlin

/-!
# From type text to descriptors

The two source dialects side by side: a parameter text gives a field type, a return text a return
type, and together they give the descriptor of a method. Every text has an erasure.
-/

namespace JvmThrows

inductive Dialect where
  | java | kotlin
  deriving DecidableEq, Repr

namespace TypeText

open Text

def erase (dialect : Dialect) (params : List TypeParameter) (text : String) : FieldType :=
  match dialect with
  | .java => Java.erase params text.toList
  | .kotlin => Kotlin.erase params text.toList

/-- The texts for a method that returns nothing. -/
def isVoid : Dialect → String → Bool
  | .java, text => text == "void"
  | .kotlin, text => text == "Unit" || text == "kotlin.Unit"

/-- No text, or a blank one, means that nothing is returned. -/
def eraseReturn (dialect : Dialect) (params : List TypeParameter) (text : Option String) :
    ReturnType :=
  match text with
  | none => .void
  | some text =>
    let trimmed := String.ofList (trim text.toList)
    if trimmed.isEmpty || isVoid dialect trimmed then .void
    else .value (erase dialect params trimmed)

/-- The erased types of a declaration. -/
def methodType (dialect : Dialect) (parameterTypes : List String) (returnType : Option String)
    (params : List TypeParameter) : MethodDescriptor where
  params := parameterTypes.map (erase dialect params)
  returnType := eraseReturn dialect params returnType

def methodDescriptor (dialect : Dialect) (parameterTypes : List String)
    (returnType : Option String) (params : List TypeParameter) : String :=
  (methodType dialect parameterTypes returnType params).render

end TypeText

end JvmThrows
