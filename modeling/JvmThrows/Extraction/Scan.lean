import JvmThrows.ClassFile.Basic
import JvmThrows.Descriptor

/-!
# What a body throws

Follows the reference on top of the stack through the straight runs of a body. Inside such a run,
`athrow` throws the object that was last initialized after its allocation, or returned by a call
outside the arguments of a constructor. Everything is forgotten where control may come from
elsewhere.
-/

namespace JvmThrows

/-- What is known of the stack. -/
structure Tracker where
  /-- Classes allocated and not yet initialized, innermost first. -/
  pending : List String := []
  /-- Class of the reference that would be thrown, if known. -/
  operand : Option String := none
  deriving DecidableEq, Repr

namespace Tracker

/-- Loads of references of which nothing is known: `aconst_null`, `aload`, `aaload`, `getstatic`,
`getfield` and `checkcast`. -/
def pushesUnknown (opcode : UInt8) : Bool :=
  opcode == 0x01 || opcode == 0x19 || (0x2a ≤ opcode && opcode ≤ 0x2d) || opcode == 0x32 ||
    opcode == 0xb2 || opcode == 0xb4 || opcode == 0xc0

/-- The class that a call leaves on the stack. -/
def returned? (descriptor : String) : Option String :=
  match MethodDescriptor.parse descriptor with
  | .ok d => d.returnedClass
  | .error _ => none

/-- After a call. -/
def call (s : Tracker) (target : MemberRef) : Tracker :=
  if target.name = "<init>" then
    match s.pending with
    | c :: outer => if c = target.owner then ⟨outer, some c⟩ else s
    | [] => s
  else if s.pending.isEmpty then { s with operand := returned? target.descriptor }
  else s

/-- After an operation. -/
def step (s : Tracker) : Operation → Tracker
  | .new c => { s with pending := c :: s.pending }
  | .invoke _ target => s.call target
  | .athrow | .leave | .branch _ true => {}
  | .branch _ false => s
  | .other opcode =>
    if pushesUnknown opcode && s.pending.isEmpty then { s with operand := none } else s

/-- Before the instruction at `pc`, given where runs start. -/
def enter (s : Tracker) (starts : List Nat) (pc : Nat) : Tracker :=
  if starts.contains pc then {} else s

/-- Where which classes are thrown, starting with what is known. -/
def throwsFrom (starts : List Nat) : Tracker → List Instruction → List (Nat × String)
  | _, [] => []
  | s, i :: rest =>
    let s := s.enter starts i.pc
    let later := throwsFrom starts (s.step i.op) rest
    match i.op, s.operand with
    | .athrow, some thrown => (i.pc, thrown) :: later
    | _, _ => later

end Tracker

namespace Code

/-- The positions of throws with the internal name of what is thrown, where it is known. -/
def thrown (code : Code) : List (Nat × String) :=
  Tracker.throwsFrom code.blockStarts {} code.instructions

/-- The positions of calls with their targets. -/
def calls (code : Code) : List (Nat × MemberRef) :=
  code.instructions.filterMap fun i =>
    match i.op with
    | .invoke _ target => some (i.pc, target)
    | _ => none

end Code

end JvmThrows
