import JvmThrows.ClassFile.ConstantPool

/-!
# Building a constant pool

Constants get indices from 1 in the order in which they are first asked for; asking again gives the
same index.
-/

namespace JvmThrows

namespace Constant

/-- The tag and content of a constant. -/
def encode : Constant → Bytes
  | utf8 text => 1 :: bytes16 (UInt16.ofNat text.toUTF8.size) ++ text.toUTF8.toList
  | integer bits => 3 :: bytes32 bits
  | float bits => 4 :: bytes32 bits
  | long high low => 5 :: bytes32 high ++ bytes32 low
  | double high low => 6 :: bytes32 high ++ bytes32 low
  | classRef name => 7 :: bytes16 name
  | string text => 8 :: bytes16 text
  | member .field owner signature => 9 :: bytes16 owner ++ bytes16 signature
  | member .method owner signature => 10 :: bytes16 owner ++ bytes16 signature
  | member .interfaceMethod owner signature => 11 :: bytes16 owner ++ bytes16 signature
  | nameAndType name descriptor => 12 :: bytes16 name ++ bytes16 descriptor
  | methodHandle kind reference => 15 :: kind :: bytes16 reference
  | methodType descriptor => 16 :: bytes16 descriptor
  | dynamic bootstrap signature => 17 :: bytes16 bootstrap ++ bytes16 signature
  | invokeDynamic bootstrap signature => 18 :: bytes16 bootstrap ++ bytes16 signature
  | moduleRef name => 19 :: bytes16 name
  | packageRef name => 20 :: bytes16 name

end Constant

namespace Assembly

/-- Computes with the constants collected so far, in order. -/
abbrev Pooled := StateM (List Constant)

/-- The index of a constant, which is added unless it is there. -/
def intern (c : Constant) : Pooled UInt16 := fun constants =>
  match constants.findIdx? (· == c) with
  | some i => (UInt16.ofNat (i + 1), constants)
  | none => (UInt16.ofNat (constants.length + 1), constants ++ [c])

def internText (text : String) : Pooled UInt16 := intern (.utf8 text)

def internClass (name : String) : Pooled UInt16 := do
  let index ← internText name
  intern (.classRef index)

def internMethod (kind : MemberKind) (owner name descriptor : String) : Pooled UInt16 := do
  let owner ← internClass owner
  let name ← internText name
  let descriptor ← internText descriptor
  let signature ← intern (.nameAndType name descriptor)
  intern (.member kind owner signature)

/-- The pool with the count before it. -/
def encodePool (constants : List Constant) : Bytes :=
  bytes16 (UInt16.ofNat (constants.length + 1)) ++ constants.flatMap (·.encode)

end Assembly

end JvmThrows
