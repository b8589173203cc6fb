import JvmThrows.ClassFile.Error

/-!
# Words in class files

Class files are big-endian. `Parse` reads from the front of a list of bytes and reports an end that
comes too early; `bytes16` and `bytes32` write what `u2` and `u4` read.
-/

namespace JvmThrows

abbrev Bytes := List UInt8

/-- Reads from the front of the bytes that are left. -/
abbrev Parse (α : Type) := StateT Bytes (Except ClassFileError) α

def word16 (a b : UInt8) : UInt16 := UInt16.ofNat (a.toNat * 0x100 + b.toNat)

def word32 (a b c d : UInt8) : UInt32 :=
  UInt32.ofNat (((a.toNat * 0x100 + b.toNat) * 0x100 + c.toNat) * 0x100 + d.toNat)

def bytes16 (w : UInt16) : Bytes := [UInt8.ofNat (w.toNat / 0x100), UInt8.ofNat w.toNat]

def bytes32 (w : UInt32) : Bytes :=
  [UInt8.ofNat (w.toNat / 0x1000000), UInt8.ofNat (w.toNat / 0x10000),
    UInt8.ofNat (w.toNat / 0x100), UInt8.ofNat w.toNat]

namespace Parse

def u1 : Parse UInt8
  | a :: rest => .ok (a, rest)
  | _ => .error .unexpectedEnd

def u2 : Parse UInt16
  | a :: b :: rest => .ok (word16 a b, rest)
  | _ => .error .unexpectedEnd

def u4 : Parse UInt32
  | a :: b :: c :: d :: rest => .ok (word32 a b c d, rest)
  | _ => .error .unexpectedEnd

/-- Exactly `n` bytes. -/
def take (n : Nat) : Parse Bytes := fun bytes =>
  let taken := bytes.take n
  if taken.length = n then .ok (taken, bytes.drop n) else .error .unexpectedEnd

/-- Refuses bytes that are left. -/
def finish : Parse Unit
  | [] => .ok ((), [])
  | _ => .error .trailingBytes

/-- A result computed from what was read. -/
def lift {α : Type} (result : Except ClassFileError α) : Parse α := fun bytes =>
  match result with
  | .ok a => .ok (a, bytes)
  | .error e => .error e

/-- Runs a reader a number of times. `acc` holds the results so far in reverse. -/
def timesFrom {α : Type} (p : Parse α) : Nat → List α → Parse (List α)
  | 0, acc => pure acc.reverse
  | n + 1, acc => do
    let a ← p
    timesFrom p n (a :: acc)

def times {α : Type} (n : Nat) (p : Parse α) : Parse (List α) := timesFrom p n []

end Parse

/-- Big-endian two's complement of two bytes. -/
def signed16 (a b : UInt8) : Int := (word16 a b).toInt16.toInt

/-- Big-endian two's complement of four bytes. -/
def signed32 (a b c d : UInt8) : Int := (word32 a b c d).toInt32.toInt

end JvmThrows
