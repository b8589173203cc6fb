import JvmThrows.ClassFile.ConstantPool

/-!
# Instructions

Decodes the code array of a method into what matters for exceptions: allocations, calls, throws and
the flow of control. `Layout` says how the operands of an opcode are laid out; `decode` succeeds if
the instructions tile the array.
-/

namespace JvmThrows

inductive InvokeKind where
  | virtual | special | static | interface
  deriving DecidableEq, Repr

/-- What an instruction does. -/
inductive Operation where
  /-- Allocates an instance of a class, given by internal name. -/
  | new (className : String)
  | invoke (kind : InvokeKind) (target : MemberRef)
  /-- Throws the reference on top of the stack. -/
  | athrow
  /-- May continue at any of the targets; control never falls through if unconditional. -/
  | branch (targets : List Nat) (unconditional : Bool)
  /-- Leaves the method or subroutine. -/
  | leave
  | other (opcode : UInt8)
  deriving DecidableEq, Repr

structure Instruction where
  pc : Nat
  op : Operation
  deriving DecidableEq, Repr

/-- How the operands of an opcode are laid out. -/
inductive Layout where
  /-- Operands of a fixed size that are skipped. -/
  | plain (size : Nat)
  /-- An offset of two bytes. -/
  | jump (unconditional : Bool)
  /-- An offset of four bytes. -/
  | farJump (unconditional : Bool)
  | tableSwitch
  | lookupSwitch
  | leave (size : Nat)
  | invoke (kind : InvokeKind)
  | new
  | athrow
  /-- Another instruction with wider operands. -/
  | wide
  deriving DecidableEq, Repr

namespace Layout

/-- The layout of each defined opcode. -/
def ofOpcode? (opcode : UInt8) : Option Layout :=
  let n := opcode.toNat
  if n ≤ 0x0f then some (plain 0)
  else if n = 0x10 then some (plain 1)
  else if n = 0x11 then some (plain 2)
  else if n = 0x12 then some (plain 1)
  else if n ≤ 0x14 then some (plain 2)
  else if n ≤ 0x19 then some (plain 1)
  else if n ≤ 0x35 then some (plain 0)
  else if n ≤ 0x3a then some (plain 1)
  else if n ≤ 0x83 then some (plain 0)
  else if n = 0x84 then some (plain 2)
  else if n ≤ 0x98 then some (plain 0)
  else if n ≤ 0xa6 then some (jump false)
  else if n = 0xa7 then some (jump true)
  else if n = 0xa8 then some (jump false)
  else if n = 0xa9 then some (leave 1)
  else if n = 0xaa then some tableSwitch
  else if n = 0xab then some lookupSwitch
  else if n ≤ 0xb1 then some (leave 0)
  else if n ≤ 0xb5 then some (plain 2)
  else if n = 0xb6 then some (invoke .virtual)
  else if n = 0xb7 then some (invoke .special)
  else if n = 0xb8 then some (invoke .static)
  else if n = 0xb9 then some (invoke .interface)
  else if n = 0xba then some (plain 4)
  else if n = 0xbb then some new
  else if n = 0xbc then some (plain 1)
  else if n = 0xbd then some (plain 2)
  else if n = 0xbe then some (plain 0)
  else if n = 0xbf then some athrow
  else if n ≤ 0xc1 then some (plain 2)
  else if n ≤ 0xc3 then some (plain 0)
  else if n = 0xc4 then some wide
  else if n = 0xc5 then some (plain 3)
  else if n ≤ 0xc7 then some (jump false)
  else if n = 0xc8 then some (farJump true)
  else if n = 0xc9 then some (farJump false)
  else if n = 0xca ∨ n = 0xfe ∨ n = 0xff then some (plain 0)
  else none

end Layout

namespace Instruction

/-- Any fault in a code array. -/
def malformed : ClassFileError := .malformedAttribute "Code"

def need {α : Type} : Option α → Except ClassFileError α
  | some a => .ok a
  | none => .error malformed

/-- The position that an offset leads to from `pc`, if it is a position at all. -/
def target (pc : Nat) (offset : Int) : Except ClassFileError Nat :=
  let at_ := (pc : Int) + offset
  if 0 ≤ at_ ∧ at_ < 0x100000000 then .ok at_.toNat else .error malformed

/-- The index that two operand bytes spell. -/
def index? : Bytes → Option UInt16
  | a :: b :: _ => some (word16 a b)
  | _ => none

/-- The offset that two operand bytes spell. -/
def offset16? : Bytes → Option Int
  | a :: b :: _ => some (signed16 a b)
  | _ => none

/-- A number of consecutive words of four bytes, signed. -/
def offsets32? : Nat → Bytes → Option (List Int)
  | 0, _ => some []
  | n + 1, a :: b :: c :: d :: rest => (offsets32? n rest).map (signed32 a b c d :: ·)
  | _, _ => none

/-- The second words of a number of consecutive pairs of words. -/
def pairOffsets32? : Nat → Bytes → Option (List Int)
  | 0, _ => some []
  | n + 1, _ :: _ :: _ :: _ :: a :: b :: c :: d :: rest =>
    (pairOffsets32? n rest).map (signed32 a b c d :: ·)
  | _, _ => none

/-- The bytes between a switch opcode at `pc` and the next position that four divides. -/
def padding (pc : Nat) : Nat := 3 - pc % 4

/-- Default offset, then one offset for each value from the lowest to the highest. -/
def tableSwitch? (operands : Bytes) : Option (List Int × Nat) := do
  match ← offsets32? 3 operands with
  | [other, low, high] =>
    if high < low then none
    else
      let count := (high - low + 1).toNat
      return (other :: (← offsets32? count (operands.drop 12)), 12 + count * 4)
  | _ => none

/-- Default offset, then the offsets of the listed values. -/
def lookupSwitch? (operands : Bytes) : Option (List Int × Nat) := do
  match ← offsets32? 2 operands with
  | [other, count] =>
    if count < 0 then none
    else
      let count := count.toNat
      return (other :: (← pairOffsets32? count (operands.drop 8)), 8 + count * 8)
  | _ => none

/-- The operation of an opcode at `pc` and the size of its operands, which start the given bytes. -/
def read (pool : ConstantPool) (pc : Nat) (opcode : UInt8) (operands : Bytes) :
    Except ClassFileError (Operation × Nat) := do
  match ← need (Layout.ofOpcode? opcode) with
  | .plain size => return (.other opcode, size)
  | .jump unconditional =>
    return (.branch [← target pc (← need (offset16? operands))] unconditional, 2)
  | .farJump unconditional =>
    return (.branch (← (← need (offsets32? 1 operands)).mapM (target pc)) unconditional, 4)
  | .tableSwitch =>
    let (offsets, size) ← need (tableSwitch? (operands.drop (padding pc)))
    return (.branch (← offsets.mapM (target pc)) true, padding pc + size)
  | .lookupSwitch =>
    let (offsets, size) ← need (lookupSwitch? (operands.drop (padding pc)))
    return (.branch (← offsets.mapM (target pc)) true, padding pc + size)
  | .leave size => return (.leave, size)
  | .invoke kind =>
    let member ← pool.memberRef (← need (index? operands))
    return (.invoke kind member, if kind = .interface then 4 else 2)
  | .new => return (.new (← pool.className (← need (index? operands))), 2)
  | .athrow => return (.athrow, 0)
  | .wide => return (.other opcode, if (← need operands.head?) = 0x84 then 5 else 3)

/-- The instructions of a code array whose first byte is at `pc`. -/
def decodeFrom (pool : ConstantPool) (pc : Nat) :
    Bytes → Except ClassFileError (List Instruction)
  | [] => .ok []
  | opcode :: operands =>
    match read pool pc opcode operands with
    | .error e => .error e
    | .ok (op, size) =>
      if (operands.take size).length = size then
        match decodeFrom pool (pc + 1 + size) (operands.drop size) with
        | .ok rest => .ok (⟨pc, op⟩ :: rest)
        | .error e => .error e
      else .error malformed
termination_by bytes => bytes.length
decreasing_by simp only [List.length_drop, List.length_cons]; omega

def decode (pool : ConstantPool) (code : Bytes) : Except ClassFileError (List Instruction) :=
  decodeFrom pool 0 code

end Instruction

end JvmThrows
