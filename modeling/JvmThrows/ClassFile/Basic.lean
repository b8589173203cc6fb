import JvmThrows.ClassFile.Code

/-!
# Class files

A class as its file describes it, as far as exceptions and dispatch depend on it, and `ofBytes`,
which reads the whole file or reports the first fault in reading order.
-/

namespace JvmThrows

structure AccessFlags where
  bits : UInt16
  deriving DecidableEq, Repr

namespace AccessFlags

def has (flags : AccessFlags) (mask : UInt16) : Bool := flags.bits &&& mask != 0

def isPrivate (flags : AccessFlags) : Bool := flags.has 0x0002
def isStatic (flags : AccessFlags) : Bool := flags.has 0x0008
def isFinal (flags : AccessFlags) : Bool := flags.has 0x0010
def isInterface (flags : AccessFlags) : Bool := flags.has 0x0200
def isAbstract (flags : AccessFlags) : Bool := flags.has 0x0400

end AccessFlags

/-- Instance and class initializers have reserved names. -/
def isInitializerName (name : String) : Bool := name == "<init>" || name == "<clinit>"

structure Method where
  access : AccessFlags
  name : String
  descriptor : String
  /-- Internal names of the declared exceptions. -/
  declared : List String
  code : Option Code
  deriving DecidableEq, Repr

/-- An attribute of a method. -/
inductive MethodAttribute where
  | exceptions (classes : List String)
  | code (code : Code)
  | other

namespace MethodAttribute

open Parse in
/-- Reads the classes of an `Exceptions` attribute. -/
def readExceptions (pool : ConstantPool) : Parse (List String) := do
  let count ← u2
  times count.toNat do
    let index ← u2
    lift (pool.className index)

/-- Interprets an attribute by its name. -/
def ofRaw (pool : ConstantPool) (raw : RawAttribute) : Except ClassFileError MethodAttribute := do
  let name ← pool.text raw.name
  if name = "Exceptions" then
    match ← (readExceptions pool).run raw.content with
    | (classes, []) => return exceptions classes
    | _ => throw (.malformedAttribute "Exceptions")
  else if name = "Code" then return code (← (Code.read pool).run raw.content).1
  else return other

def declared : MethodAttribute → List String
  | exceptions classes => classes
  | _ => []

def code? : MethodAttribute → Option Code
  | code c => some c
  | _ => none

open Parse in
def read (pool : ConstantPool) : Parse MethodAttribute := do
  let raw ← RawAttribute.read
  lift (ofRaw pool raw)

end MethodAttribute

namespace Method

open Parse in
/-- Reads a method. Repeated lists of exceptions add up; of repeated bodies the last counts. -/
def read (pool : ConstantPool) : Parse Method := do
  let access ← u2
  let nameIndex ← u2
  let name ← lift (pool.text nameIndex)
  let descriptorIndex ← u2
  let descriptor ← lift (pool.text descriptorIndex)
  let count ← u2
  let attributes ← times count.toNat (MethodAttribute.read pool)
  return {
    access := ⟨access⟩
    name
    descriptor
    declared := attributes.flatMap (·.declared)
    code := (attributes.filterMap (·.code?)).getLast? }

def isInitializer (m : Method) : Bool := isInitializerName m.name

end Method

structure ClassFile where
  minorVersion : UInt16
  majorVersion : UInt16
  access : AccessFlags
  /-- Internal name. -/
  name : String
  superclass : Option String
  interfaces : List String
  methods : List Method
  deriving DecidableEq, Repr

namespace ClassFile

def magic : UInt32 := 0xCAFEBABE

open Parse in
/-- Reads a field, of which nothing is kept. -/
def skipField : Parse Unit := do
  let _ ← take 6
  RawAttribute.skipAll

open Parse in
def read : Parse ClassFile := do
  let found ← u4
  if found != magic then throw (.invalidMagic found)
  let minorVersion ← u2
  let majorVersion ← u2
  let pool ← ConstantPool.read
  let access ← u2
  let nameIndex ← u2
  let name ← lift (pool.className nameIndex)
  let superIndex ← u2
  let superclass ← lift (pool.className? superIndex)
  let interfaceCount ← u2
  let interfaces ← times interfaceCount.toNat do
    let index ← u2
    lift (pool.className index)
  let fieldCount ← u2
  let _ ← times fieldCount.toNat skipField
  let methodCount ← u2
  let methods ← times methodCount.toNat (Method.read pool)
  RawAttribute.skipAll
  finish
  return ⟨minorVersion, majorVersion, ⟨access⟩, name, superclass, interfaces, methods⟩

/-- Reads a whole file. -/
def ofBytes (bytes : Bytes) : Except ClassFileError ClassFile := do
  return (← read.run bytes).1

/-- The first method of a name and descriptor. -/
def method? (c : ClassFile) (name descriptor : String) : Option Method :=
  c.methods.find? fun m => m.name == name && m.descriptor == descriptor

end ClassFile

end JvmThrows
