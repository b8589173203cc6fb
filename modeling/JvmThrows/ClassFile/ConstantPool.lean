import JvmThrows.ClassFile.ModifiedUtf8

/-!
# The constant pool

Constants refer to each other by index. Index 0 is never used, and a `Long` or `Double` takes two
indices, the second of which is not usable either. Look-ups follow references and check kinds.
-/

namespace JvmThrows

inductive MemberKind where
  | field | method | interfaceMethod
  deriving DecidableEq, Repr

inductive Constant where
  | utf8 (text : String)
  | integer (bits : UInt32)
  | float (bits : UInt32)
  | long (high low : UInt32)
  | double (high low : UInt32)
  | classRef (name : UInt16)
  | string (text : UInt16)
  | member (kind : MemberKind) (owner signature : UInt16)
  | nameAndType (name descriptor : UInt16)
  | methodHandle (kind : UInt8) (reference : UInt16)
  | methodType (descriptor : UInt16)
  | dynamic (bootstrap signature : UInt16)
  | invokeDynamic (bootstrap signature : UInt16)
  | moduleRef (name : UInt16)
  | packageRef (name : UInt16)
  deriving DecidableEq, Repr

def MemberKind.constantKind : MemberKind → ConstantKind
  | field => .fieldRef
  | method => .methodRef
  | interfaceMethod => .interfaceMethodRef

namespace Constant

def kind : Constant → ConstantKind
  | utf8 _ => .utf8
  | integer _ => .integer
  | float _ => .float
  | long _ _ => .long
  | double _ _ => .double
  | classRef _ => .classRef
  | string _ => .string
  | member kind _ _ => kind.constantKind
  | nameAndType _ _ => .nameAndType
  | methodHandle _ _ => .methodHandle
  | methodType _ => .methodType
  | dynamic _ _ => .dynamic
  | invokeDynamic _ _ => .invokeDynamic
  | moduleRef _ => .moduleRef
  | packageRef _ => .packageRef

/-- Whether the index after it is not usable. -/
def isWide : Constant → Bool
  | long _ _ | double _ _ => true
  | _ => false

open Parse in
/-- Reads a constant: its tag, then its content. -/
def read : Parse Constant := do
  let tag ← u1
  match tag with
  | 1 =>
    let length ← u2
    let bytes ← take length.toNat
    return utf8 (← lift (ModifiedUtf8.decode bytes))
  | 3 => return integer (← u4)
  | 4 => return float (← u4)
  | 5 => return long (← u4) (← u4)
  | 6 => return double (← u4) (← u4)
  | 7 => return classRef (← u2)
  | 8 => return string (← u2)
  | 9 => return member .field (← u2) (← u2)
  | 10 => return member .method (← u2) (← u2)
  | 11 => return member .interfaceMethod (← u2) (← u2)
  | 12 => return nameAndType (← u2) (← u2)
  | 15 => return methodHandle (← u1) (← u2)
  | 16 => return methodType (← u2)
  | 17 => return dynamic (← u2) (← u2)
  | 18 => return invokeDynamic (← u2) (← u2)
  | 19 => return moduleRef (← u2)
  | 20 => return packageRef (← u2)
  | tag => throw (.invalidTag tag)

end Constant

/-- A symbolic reference to a method or field. -/
structure MemberRef where
  /-- Internal name of the class named in the reference. -/
  owner : String
  name : String
  descriptor : String
  isInterface : Bool
  deriving DecidableEq, Repr

/-- The usable constants by index. -/
structure ConstantPool where
  slots : Array (Option Constant)

namespace ConstantPool

/-- The slots of a constant: two for a wide one. -/
def pushConstant (slots : Array (Option Constant)) (c : Constant) : Array (Option Constant) :=
  if c.isWide then (slots.push (some c)).push none else slots.push (some c)

/-- Reads constants while slots are left to fill; a wide constant may take one slot more. -/
def readFrom : Nat → Array (Option Constant) → Parse (Array (Option Constant))
  | 0, slots => pure slots
  | left + 1, slots => do
    let c ← Constant.read
    if c.isWide then
      match left with
      | 0 => pure (pushConstant slots c)
      | left + 1 => readFrom left (pushConstant slots c)
    else readFrom left (pushConstant slots c)

def read : Parse ConstantPool := do
  let count ← Parse.u2
  return ⟨← readFrom (count.toNat - 1) #[none]⟩

def get (pool : ConstantPool) (index : UInt16) : Except ClassFileError Constant :=
  match pool.slots[index.toNat]? with
  | some (some c) => .ok c
  | _ => .error (.invalidIndex index)

def text (pool : ConstantPool) (index : UInt16) : Except ClassFileError String := do
  match ← pool.get index with
  | .utf8 text => return text
  | other => throw (.kindMismatch index .utf8 other.kind)

def className (pool : ConstantPool) (index : UInt16) : Except ClassFileError String := do
  match ← pool.get index with
  | .classRef name => pool.text name
  | other => throw (.kindMismatch index .classRef other.kind)

/-- The class name at an index; index 0 stands for no class. -/
def className? (pool : ConstantPool) (index : UInt16) : Except ClassFileError (Option String) := do
  if index == 0 then return none else return some (← pool.className index)

def memberRef (pool : ConstantPool) (index : UInt16) : Except ClassFileError MemberRef := do
  match ← pool.get index with
  | .member kind owner signature =>
    match ← pool.get signature with
    | .nameAndType name descriptor =>
      return ⟨← pool.className owner, ← pool.text name, ← pool.text descriptor,
        kind == .interfaceMethod⟩
    | other => throw (.kindMismatch signature .nameAndType other.kind)
  | other => throw (.kindMismatch index .methodRef other.kind)

end ConstantPool

end JvmThrows
