/-!
# Why a class file or descriptor is refused

The first fault in reading order is reported. `message` is the only place with wording.
-/

namespace JvmThrows

/-- The kinds of constants a class file's pool may hold. -/
inductive ConstantKind where
  | utf8 | integer | float | long | double | classRef | string
  | fieldRef | methodRef | interfaceMethodRef | nameAndType
  | methodHandle | methodType | dynamic | invokeDynamic | moduleRef | packageRef
  deriving DecidableEq, Repr

def ConstantKind.label : ConstantKind → String
  | .utf8 => "Utf8"
  | .integer => "Integer"
  | .float => "Float"
  | .long => "Long"
  | .double => "Double"
  | .classRef => "Class"
  | .string => "String"
  | .fieldRef => "Fieldref"
  | .methodRef => "Methodref"
  | .interfaceMethodRef => "InterfaceMethodref"
  | .nameAndType => "NameAndType"
  | .methodHandle => "MethodHandle"
  | .methodType => "MethodType"
  | .dynamic => "Dynamic"
  | .invokeDynamic => "InvokeDynamic"
  | .moduleRef => "Module"
  | .packageRef => "Package"

inductive ClassFileError where
  | unexpectedEnd
  | invalidMagic (magic : UInt32)
  | invalidIndex (index : UInt16)
  | invalidTag (tag : UInt8)
  | kindMismatch (index : UInt16) (expected found : ConstantKind)
  | invalidModifiedUtf8
  | invalidDescriptor (text : String)
  | malformedAttribute (name : String)
  | trailingBytes
  deriving DecidableEq, Repr

namespace ClassFileError

/-- At least `width` hexadecimal digits in lower case. -/
def hex (width n : Nat) : String :=
  let digits := Nat.toDigits 16 n
  String.ofList (List.replicate (width - digits.length) '0' ++ digits)

def message : ClassFileError → String
  | unexpectedEnd => "unexpected end of input"
  | invalidMagic magic => "invalid classfile magic: 0x" ++ hex 8 magic.toNat
  | invalidIndex index => s!"invalid constant pool index: {index.toNat}"
  | invalidTag tag => s!"invalid constant pool tag: {tag.toNat}"
  | kindMismatch index expected found =>
    s!"constant pool type mismatch at index {index.toNat}: expected " ++ expected.label ++
      ", found " ++ found.label
  | invalidModifiedUtf8 => "invalid modified UTF-8 constant"
  | invalidDescriptor text => "invalid descriptor: " ++ text
  | malformedAttribute name => "malformed " ++ name ++ " attribute"
  | trailingBytes => "trailing bytes"

end ClassFileError

end JvmThrows
