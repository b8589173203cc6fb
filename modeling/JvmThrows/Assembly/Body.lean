import JvmThrows.Assembly.Pool
import JvmThrows.ClassFile.Code
import JvmThrows.Text.Cut

/-!
# Assembling method bodies

A body is a straight line of steps and an exception table. Every step has a fixed size, so that the
positions of handlers can be told before the body is assembled.
-/

namespace JvmThrows.Assembly

inductive Step where
  /-- Any bytes. -/
  | raw (bytes : Bytes)
  | new (className : String)
  | dup
  | pop
  | aconstNull
  | iconst0
  | aload (slot : UInt8)
  | astore (slot : UInt8)
  | athrow
  | vreturn
  | areturn
  | ireturn
  | invoke (kind : InvokeKind) (owner name descriptor : String)
  /-- Allocates, initializes and throws. -/
  | throwNew (className : String)
  deriving DecidableEq, Repr

/-- The text after the semicolon that ends a class name. -/
def afterClass (chars : List Char) : List Char := (chars.dropWhile (· ≠ ';')).drop 1

theorem length_afterClass_le (chars : List Char) : (afterClass chars).length ≤ chars.length := by
  have := (List.dropWhile_sublist (· ≠ ';') (l := chars)).length_le
  simp [afterClass] at this ⊢
  omega

/-- The argument slots that parameter descriptors take, two for `J` and `D`, counted in one byte. -/
def parameterSlots (chars : List Char) : UInt8 :=
  match chars with
  | [] => 0
  | c :: rest =>
    if c = 'J' ∨ c = 'D' then 2 + parameterSlots rest
    else if c = 'L' then 1 + parameterSlots (afterClass rest)
    else if c = '[' then
      match h : rest.dropWhile (· = '[') with
      | [] => 1
      | d :: inner => 1 + parameterSlots (if d = 'L' then afterClass inner else inner)
    else 1 + parameterSlots rest
termination_by chars.length
decreasing_by
  all_goals first
    | (have h1 := length_afterClass_le rest; simp; omega)
    | (have h1 := (List.dropWhile_sublist (· = '[') (l := rest)).length_le
       have h2 := length_afterClass_le inner
       rw [h] at h1
       simp at h1 ⊢
       split <;> omega)
    | simp

/-- The slots of the parameters between the parentheses of a descriptor. -/
def argumentSlots (descriptor : String) : UInt8 :=
  match descriptor.toList with
  | '(' :: rest => parameterSlots (rest.takeWhile (· ≠ ')'))
  | _ => 0

namespace Step

def invokeOpcode : InvokeKind → UInt8
  | .virtual => 0xb6
  | .special => 0xb7
  | .static => 0xb8
  | .interface => 0xb9

def encodeNew (className : String) : Pooled Bytes := do
  let index ← internClass className
  return 0xbb :: bytes16 index

/-- A call; a call through an interface also tells its argument slots, receiver included. -/
def encodeInvoke (kind : InvokeKind) (owner name descriptor : String) : Pooled Bytes := do
  let member := if kind = .interface then .interfaceMethod else .method
  let index ← internMethod member owner name descriptor
  let count := if kind = .interface then [argumentSlots descriptor + 1, 0] else []
  return invokeOpcode kind :: bytes16 index ++ count

def encode : Step → Pooled Bytes
  | raw bytes => pure bytes
  | new className => encodeNew className
  | dup => pure [0x59]
  | pop => pure [0x57]
  | aconstNull => pure [0x01]
  | iconst0 => pure [0x03]
  | aload slot => pure (if slot ≤ 3 then [0x2a + slot] else [0x19, slot])
  | astore slot => pure (if slot ≤ 3 then [0x4b + slot] else [0x3a, slot])
  | athrow => pure [0xbf]
  | vreturn => pure [0xb1]
  | areturn => pure [0xb0]
  | ireturn => pure [0xac]
  | invoke kind owner name descriptor => encodeInvoke kind owner name descriptor
  | throwNew className => do
    let allocate ← encodeNew className
    let init ← encodeInvoke .special className "<init>" "()V"
    return allocate ++ [0x59] ++ init ++ [0xbf]

/-- How many bytes a step takes. -/
def size : Step → Nat
  | raw bytes => bytes.length
  | new _ => 3
  | aload slot | astore slot => if slot ≤ 3 then 1 else 2
  | invoke kind _ _ _ => if kind = .interface then 5 else 3
  | throwNew _ => 8
  | _ => 1

end Step

structure Body where
  steps : List Step
  handlers : List Handler := []
  deriving DecidableEq, Repr

namespace Body

/-- The positions after each step. -/
def positionsFrom (pc : Nat) : List Step → List Nat
  | [] => []
  | step :: steps => (pc + step.size) :: positionsFrom (pc + step.size) steps

def positions (body : Body) : List Nat := positionsFrom 0 body.steps

/-- Returns the default value of the type that a descriptor gives after its last parenthesis. -/
def returning (descriptor : String) : Body :=
  let result := (Text.cutLast ')' descriptor.toList).elim descriptor.toList (·.2)
  match result.head? with
  | none | some 'V' => ⟨[.vreturn], []⟩
  | some 'L' | some '[' => ⟨[.aconstNull, .areturn], []⟩
  | some 'J' => ⟨[.raw [0x09, 0xad]], []⟩
  | some 'F' => ⟨[.raw [0x0b, 0xae]], []⟩
  | some 'D' => ⟨[.raw [0x0e, 0xaf]], []⟩
  | some _ => ⟨[.iconst0, .ireturn], []⟩

def encodeHandler (h : Handler) : Pooled Bytes := do
  let caught ← match h.catchType with
    | some name => internClass name
    | none => pure 0
  return bytes16 (UInt16.ofNat h.start) ++ bytes16 (UInt16.ofNat h.stop) ++
    bytes16 (UInt16.ofNat h.entry) ++ bytes16 caught

/-- Stack and local variable limits of assembled bodies. -/
def frameLimit : UInt16 := 8

/-- The content of the `Code` attribute. -/
def encode (body : Body) : Pooled Bytes := do
  let steps ← body.steps.mapM Step.encode
  let handlers ← body.handlers.mapM encodeHandler
  let code := steps.flatten
  return bytes16 frameLimit ++ bytes16 frameLimit ++ bytes32 (UInt32.ofNat code.length) ++ code ++
    bytes16 (UInt16.ofNat handlers.length) ++ handlers.flatten ++ bytes16 0

end Body

end JvmThrows.Assembly
