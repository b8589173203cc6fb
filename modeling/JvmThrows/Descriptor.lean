import JvmThrows.ClassFile.Error
import JvmThrows.Text.Cut

/-!
# Descriptors

Types of fields and methods as class files write them: `I`, `Ljava/util/List;`, `[[J`,
`(ILjava/lang/Object;)V`. `render` writes a type, `parse` reads exactly what `render` writes; a
class name between `L` and `;` may be any text without a semicolon.
-/

namespace JvmThrows

open Text

inductive BaseType where
  | byte | char | double | float | int | long | short | boolean
  deriving DecidableEq, Repr

namespace BaseType

def code : BaseType → Char
  | byte => 'B'
  | char => 'C'
  | double => 'D'
  | float => 'F'
  | int => 'I'
  | long => 'J'
  | short => 'S'
  | boolean => 'Z'

def ofCode? : Char → Option BaseType
  | 'B' => some byte
  | 'C' => some char
  | 'D' => some double
  | 'F' => some float
  | 'I' => some int
  | 'J' => some long
  | 'S' => some short
  | 'Z' => some boolean
  | _ => none

/-- Argument slots a value of the type takes. -/
def slots : BaseType → Nat
  | double | long => 2
  | _ => 1

end BaseType

inductive FieldType where
  | base (type : BaseType)
  | object (internalName : String)
  | array (component : FieldType)
  deriving DecidableEq, Repr

namespace FieldType

/-- The type with a number of array dimensions around it. -/
def arrayOf (type : FieldType) : Nat → FieldType
  | 0 => type
  | n + 1 => array (arrayOf type n)

def chars : FieldType → List Char
  | base type => [type.code]
  | object name => 'L' :: (name.toList ++ [';'])
  | array component => '[' :: component.chars

def render (type : FieldType) : String := String.ofList type.chars

def slots : FieldType → Nat
  | base type => type.slots
  | _ => 1

/-- Reads one type off the front; an error carries the text from the fault on. -/
def read : List Char → Except ClassFileError (FieldType × List Char)
  | [] => .error (.invalidDescriptor "")
  | c :: rest =>
    match BaseType.ofCode? c with
    | some type => .ok (base type, rest)
    | none =>
      if c = 'L' then
        match cutFirst ';' rest with
        | some (name, rest) => .ok (object (String.ofList name), rest)
        | none => .error (.invalidDescriptor (String.ofList (c :: rest)))
      else if c = '[' then
        match read rest with
        | .ok (component, rest) => .ok (array component, rest)
        | .error e => .error e
      else .error (.invalidDescriptor (String.ofList (c :: rest)))

/-- A type read takes at least one character. -/
theorem length_read_lt {s rest : List Char} {type : FieldType} (h : read s = .ok (type, rest)) :
    rest.length < s.length := by
  induction s generalizing type rest with
  | nil => simp [read] at h
  | cons c cs ih =>
    unfold read at h
    split at h
    · cases h; simp
    · split at h
      · split at h
        · rename_i name rest' hcut
          cases h
          have := cutFirst_eq hcut
          simp [this]
          omega
        · cases h
      · split at h
        · split at h
          · rename_i component rest' hread
            cases h
            have := ih hread
            simp only [List.length_cons]
            omega
          · cases h
        · cases h

/-- Reads a whole text as one type. -/
def parse (text : String) : Except ClassFileError FieldType :=
  match read text.toList with
  | .error e => .error e
  | .ok (type, []) => .ok type
  | .ok _ => .error (.invalidDescriptor text)

end FieldType

inductive ReturnType where
  | void
  | value (type : FieldType)
  deriving DecidableEq, Repr

def ReturnType.chars : ReturnType → List Char
  | void => ['V']
  | value type => type.chars

structure MethodDescriptor where
  params : List FieldType
  returnType : ReturnType
  deriving DecidableEq, Repr

namespace MethodDescriptor

def chars (d : MethodDescriptor) : List Char :=
  '(' :: (d.params.flatMap FieldType.chars ++ ')' :: d.returnType.chars)

def render (d : MethodDescriptor) : String := String.ofList d.chars

/-- The class of a returned object; none for arrays, base types and `void`. -/
def returnedClass (d : MethodDescriptor) : Option String :=
  match d.returnType with
  | .value (.object name) => some name
  | _ => none

/-- Argument slots of a call: two for each `long` and `double`, one for everything else. -/
def slots (d : MethodDescriptor) : Nat := (d.params.map FieldType.slots).foldr (· + ·) 0

/-- Reads types up to and including the closing parenthesis, or to the end of the text. -/
def readParams (s : List Char) : Except ClassFileError (List FieldType × List Char) :=
  match s with
  | [] => .ok ([], [])
  | c :: cs =>
    if c = ')' then .ok ([], cs)
    else
      match h : FieldType.read (c :: cs) with
      | .error e => .error e
      | .ok (type, rest) =>
        have : rest.length < (c :: cs).length := FieldType.length_read_lt h
        match readParams rest with
        | .error e => .error e
        | .ok (types, rest) => .ok (type :: types, rest)
termination_by s.length
decreasing_by exact this

/-- Reads a whole text as a return type; leftovers are reported by `whole`. -/
def readReturn (whole : String) : List Char → Except ClassFileError ReturnType
  | [] => .error (.invalidDescriptor whole)
  | c :: cs =>
    if c = 'V' then
      if cs.isEmpty then .ok .void else .error (.invalidDescriptor whole)
    else
      match FieldType.read (c :: cs) with
      | .error e => .error e
      | .ok (type, []) => .ok (.value type)
      | .ok _ => .error (.invalidDescriptor whole)

def parse (text : String) : Except ClassFileError MethodDescriptor :=
  match text.toList with
  | '(' :: s =>
    match readParams s with
    | .error e => .error e
    | .ok (params, rest) =>
      match readReturn text rest with
      | .error e => .error e
      | .ok returnType => .ok ⟨params, returnType⟩
  | _ => .error (.invalidDescriptor text)

end MethodDescriptor

end JvmThrows
