import JvmThrows.Callable.Basic
import JvmThrows.Json.Record

/-!
# Callables in JSON

The field `dialect` tells Java from Kotlin; owner and parameters have names of their own in each.
All fields are written; on reading, lists, modifiers and optional fields may be left out.
-/

namespace JvmThrows

open Json

def Dialect.label : Dialect → String
  | java => "java"
  | kotlin => "kotlin"

def Dialect.ofLabel? : String → Option Dialect
  | "java" => some java
  | "kotlin" => some kotlin
  | _ => none

namespace TypeParameter

def toJson (p : TypeParameter) : Json :=
  .object [("name", .string p.name), ("bounds", .strings p.bounds)]

def ofJson? (json : Json) : Option TypeParameter := do
  match ← record? ["name", "bounds"] json with
  | [name, bounds] => return ⟨← required? text? name, ← default? [] (list? text?) bounds⟩
  | _ => none

end TypeParameter

namespace Modifiers

def toJson (m : Modifiers) : Json :=
  .object [("is_static", .bool m.isStatic), ("is_final", .bool m.isFinal),
    ("is_private", .bool m.isPrivate), ("is_abstract", .bool m.isAbstract),
    ("is_constructor", .bool m.isConstructor)]

def ofJson? (json : Json) : Option Modifiers := do
  match ← record? ["is_static", "is_final", "is_private", "is_abstract", "is_constructor"] json with
  | [isStatic, isFinal, isPrivate, isAbstract, isConstructor] =>
    return ⟨← default? false flag? isStatic, ← default? false flag? isFinal,
      ← default? false flag? isPrivate, ← default? false flag? isAbstract,
      ← default? false flag? isConstructor⟩
  | _ => none

end Modifiers

namespace Callable

def tagName : String := "dialect"

def ownerField : Dialect → String
  | .java => "containing_class"
  | .kotlin => "containing_declaration"

def parametersField : Dialect → String
  | .java => "parameter_types"
  | .kotlin => "value_parameter_types"

def fieldNames (d : Dialect) : List String :=
  [ownerField d, "name", parametersField d, "return_type", "type_parameters", "modifiers", "origin"]

def toJson (c : Callable) : Json :=
  .object [(tagName, .string c.dialect.label), (ownerField c.dialect, .ofOption .string c.owner),
    ("name", .string c.name), (parametersField c.dialect, .strings c.parameterTypes),
    ("return_type", .ofOption .string c.returnType),
    ("type_parameters", .array (c.typeParameters.map TypeParameter.toJson)),
    ("modifiers", c.modifiers.toJson), ("origin", .string c.origin.display)]

/-- Reads the fields that follow the tag. -/
def ofFields? (dialect : Dialect) (json : Json) : Option Callable := do
  match ← record? (fieldNames dialect) json with
  | [owner, name, parameters, returnType, typeParameters, modifiers, origin] =>
    return {
      dialect
      owner := ← optional? text? owner
      name := ← required? text? name
      parameterTypes := ← default? [] (list? text?) parameters
      returnType := ← optional? text? returnType
      typeParameters := ← default? [] (list? TypeParameter.ofJson?) typeParameters
      modifiers := ← default? {} Modifiers.ofJson? modifiers
      origin := Origin.parse (← required? text? origin) }
  | _ => none

def dialect? (json : Json) : Option Dialect := (text? json).bind Dialect.ofLabel?

/-- Reads a callable: an object with a tag, or an array that begins with it. -/
def ofJson? (json : Json) : Option Callable :=
  if json.isSound then
    match json with
    | .object fields => do
      let dialect ← required? dialect? (← field? fields tagName)
      ofFields? dialect (.object (fields.filter fun f => f.1 != tagName))
    | .array (tag :: items) => do
      let dialect ← dialect? tag
      ofFields? dialect (.array items)
    | _ => none
  else none

end Callable

end JvmThrows
