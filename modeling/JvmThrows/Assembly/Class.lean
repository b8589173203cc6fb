import JvmThrows.Assembly.Body
import JvmThrows.ClassFile.Basic

/-!
# Assembling class files

Descriptions of classes and methods, and the class files they stand for. The files read back by
`ClassFile.ofBytes`.
-/

namespace JvmThrows.Assembly

structure MethodSpec where
  name : String
  descriptor : String
  access : AccessFlags := ⟨0x0001⟩
  throws : List String := []
  body : Option Body

namespace MethodSpec

/-- A public method that returns a default value. -/
def concrete (name descriptor : String) : MethodSpec :=
  { name, descriptor, body := some (.returning descriptor) }

/-- A public abstract method. -/
def abstract (name descriptor : String) : MethodSpec :=
  { name, descriptor, access := ⟨0x0401⟩, body := none }

def encodeAttribute (name : UInt16) (content : Bytes) : Bytes :=
  bytes16 name ++ bytes32 (UInt32.ofNat content.length) ++ content

def encodeBody : Option Body → Pooled (List Bytes)
  | none => pure []
  | some body => do
    let name ← internText "Code"
    return [encodeAttribute name (← body.encode)]

def encodeThrows : List String → Pooled (List Bytes)
  | [] => pure []
  | classes => do
    let name ← internText "Exceptions"
    let indices ← classes.mapM internClass
    return [encodeAttribute name
      (bytes16 (UInt16.ofNat indices.length) ++ indices.flatMap bytes16)]

def encode (m : MethodSpec) : Pooled Bytes := do
  let name ← internText m.name
  let descriptor ← internText m.descriptor
  let body ← encodeBody m.body
  let throws ← encodeThrows m.throws
  let attributes := body ++ throws
  return bytes16 m.access.bits ++ bytes16 name ++ bytes16 descriptor ++
    bytes16 (UInt16.ofNat attributes.length) ++ attributes.flatten

end MethodSpec

structure ClassSpec where
  /-- Internal name. -/
  name : String
  superclass : String := "java/lang/Object"
  interfaces : List String := []
  access : AccessFlags := ⟨0x0021⟩
  methods : List MethodSpec := []

namespace ClassSpec

/-- The flags of a public interface. -/
def interfaceAccess : AccessFlags := ⟨0x0601⟩

/-- The format version of assembled files. -/
def majorVersion : UInt16 := 52

/-- All that follows the pool. -/
def encodeRest (c : ClassSpec) : Pooled Bytes := do
  let name ← internClass c.name
  let superclass ← internClass c.superclass
  let interfaces ← c.interfaces.mapM internClass
  let methods ← c.methods.mapM MethodSpec.encode
  return bytes16 c.access.bits ++ bytes16 name ++ bytes16 superclass ++
    bytes16 (UInt16.ofNat interfaces.length) ++ interfaces.flatMap bytes16 ++
    bytes16 0 ++
    bytes16 (UInt16.ofNat methods.length) ++ methods.flatten ++
    bytes16 0

/-- The class file. -/
def encode (c : ClassSpec) : Bytes :=
  let (rest, constants) := c.encodeRest []
  bytes32 ClassFile.magic ++ bytes16 0 ++ bytes16 majorVersion ++ encodePool constants ++ rest

end ClassSpec

end JvmThrows.Assembly
