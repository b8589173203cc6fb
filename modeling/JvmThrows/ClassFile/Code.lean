import JvmThrows.ClassFile.Instruction

/-!
# Method bodies

The `Code` attribute: instructions and the table of exception handlers. Nested attributes are
skipped.
-/

namespace JvmThrows

/-- An attribute as it stands in the file. -/
structure RawAttribute where
  name : UInt16
  content : Bytes

open Parse in
def RawAttribute.read : Parse RawAttribute := do
  let name ← u2
  let length ← u4
  return ⟨name, ← take length.toNat⟩

open Parse in
/-- Reads attributes that nothing depends on. -/
def RawAttribute.skipAll : Parse Unit := do
  let count ← u2
  let _ ← times count.toNat read

/-- A row of the exception table. -/
structure Handler where
  start : Nat
  /-- The first position that is no longer covered. -/
  stop : Nat
  entry : Nat
  /-- Internal name of the caught class; a handler without one catches everything. -/
  catchType : Option String
  deriving DecidableEq, Repr

namespace Handler

def covers (h : Handler) (pc : Nat) : Bool := h.start ≤ pc && pc < h.stop

open Parse in
def read (pool : ConstantPool) : Parse Handler := do
  let start ← u2
  let stop ← u2
  let entry ← u2
  let caught ← u2
  return ⟨start.toNat, stop.toNat, entry.toNat, ← lift (pool.className? caught)⟩

end Handler

structure Code where
  maxStack : UInt16
  maxLocals : UInt16
  instructions : List Instruction
  handlers : List Handler
  deriving DecidableEq, Repr

namespace Code

open Parse in
/-- Reads the content of a `Code` attribute. -/
def read (pool : ConstantPool) : Parse Code := do
  let maxStack ← u2
  let maxLocals ← u2
  let length ← u4
  let bytes ← take length.toNat
  let instructions ← lift (Instruction.decode pool bytes)
  let count ← u2
  let handlers ← times count.toNat (Handler.read pool)
  RawAttribute.skipAll
  finish
  return ⟨maxStack, maxLocals, instructions, handlers⟩

/-- Where an operation may jump to. -/
def jumps : Operation → List Nat
  | .branch targets _ => targets
  | _ => []

/-- Inserts into an ascending list, unless it is there. -/
def insertAscending (n : Nat) : List Nat → List Nat
  | [] => [n]
  | m :: rest =>
    if n < m then n :: m :: rest else if n = m then m :: rest else m :: insertAscending n rest

/-- Positions that control may reach other than from the instruction before: the targets of
branches and the entries of handlers, ascending. -/
def blockStarts (code : Code) : List Nat :=
  (code.instructions.flatMap (jumps ·.op) ++ code.handlers.map (·.entry)).foldr insertAscending []

end Code

end JvmThrows
